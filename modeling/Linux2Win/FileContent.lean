import Linux2Win.Blocks
import Linux2Win.Programs
import Linux2Win.FileData

namespace Linux2Win.FileContent

open Bytes Devices Ext4Types Reader BlockMap FileData Blocks Programs

/-- A block comes back whole or not at all, whatever its number. -/
def Whole (dev : Device Id) (blockSize : UInt32) : Prop :=
  ∀ blockIndex, ∃ r, readBlock dev blockIndex blockSize = pure r ∧
    ∀ b, r = some b → b.length = blockSize.toNat

theorem disk_whole (disk : Disk) (w : BlockDevice) {blockSize : UInt32} (h : Accepted blockSize) :
    Whole (disk.device w) blockSize := by
  intro blockIndex
  have hle := (Accepted.bounds h).2
  have hsize : blockSize.toUInt64.toNat = blockSize.toNat := UInt32.toNat_toUInt64 blockSize
  have hsmall : blockSize.toUInt64.toNat < 2 ^ 63 := by rw [hsize]; omega
  obtain ⟨r, hr, hlen⟩ := disk.read_whole w (blockIndex * blockSize.toUInt64) hsmall
  exact ⟨r, hr, fun b hb => (hlen b hb).trans hsize⟩

section Iteration

variable {offset remaining : UInt64} {blockSize : UInt32}

theorem logicalBlock_eq (offset : UInt64) (blockSize : UInt32) :
    (offset / blockSize.toUInt64).toUInt32 = UInt32.ofNat (offset.toNat / blockSize.toNat) := by
  apply UInt32.toNat_inj.mp
  simp

theorem blockOffset_toNat (offset : UInt64) (h : 0 < blockSize.toNat) :
    (offset % blockSize.toUInt64).toUInt32.toNat = offset.toNat % blockSize.toNat := by
  have hlt := Nat.mod_lt offset.toNat h
  have := blockSize.toNat_lt
  simp only [UInt64.toNat_toUInt32, UInt64.toNat_mod, UInt32.toNat_toUInt64]
  exact Nat.mod_eq_of_lt (by omega)

/-- An iteration copies up to the end of its block. The count goes through 32 bits. -/
theorem toCopy_toNat (offset remaining : UInt64) (h : 0 < blockSize.toNat) :
    (min remaining.toUInt32 (blockSize - (offset % blockSize.toUInt64).toUInt32)).toNat =
      min (remaining.toNat % 2 ^ 32) (blockSize.toNat - offset.toNat % blockSize.toNat) := by
  have hoff := blockOffset_toNat offset h
  have hle : (offset % blockSize.toUInt64).toUInt32 ≤ blockSize := by
    rw [UInt32.le_iff_toNat_le, hoff]
    exact (Nat.mod_lt _ h).le
  rw [min_toNat UInt32.toNat UInt32.le_iff_toNat_le, UInt32.toNat_sub_of_le _ _ hle, hoff, UInt64.toNat_toUInt32]

end Iteration

section Content

variable (dev : Device Id) (rd : Ext4Reader)

/-- The content of a mapped block: none if it cannot be read, zeros for a hole. -/
def blockContent : Option UInt64 → Option (List Byte)
  | some physBlock =>
    if physBlock != 0 then (result (readBlock dev physBlock rd.blockSize)).join
    else some (List.replicate rd.blockSize.toNat 0)
  | none => some (List.replicate rd.blockSize.toNat 0)

def fileBlock (map : UInt32 → Option UInt64) (n : Nat) : Option (List Byte) :=
  blockContent dev rd (map (UInt32.ofNat n))

variable {dev rd}

theorem blockContent_read {physBlock : UInt64} {r : Option (List Byte)} (hp : physBlock ≠ 0)
    (h : readBlock dev physBlock rd.blockSize = pure r) :
    blockContent dev rd (some physBlock) = r := by
  rw [blockContent, if_pos (bne_iff_ne.mpr hp), h]
  cases r <;> rfl

theorem blockContent_length (hdev : Whole dev rd.blockSize) {mapped : Option UInt64}
    {b : List Byte} (h : blockContent dev rd mapped = some b) : b.length = rd.blockSize.toNat := by
  have hzero : ∀ b, some (List.replicate rd.blockSize.toNat (0 : Byte)) = some b →
      b.length = rd.blockSize.toNat := by
    rintro _ ⟨⟩
    exact List.length_replicate
  cases mapped with
  | none => exact hzero b h
  | some physBlock =>
      by_cases hp : physBlock = 0
      · rw [hp] at h
        exact hzero b h
      · obtain ⟨r, hr, hlen⟩ := hdev physBlock
        rw [blockContent_read hp hr] at h
        exact hlen b h

theorem blockBytes_eq (hdev : Whole dev rd.blockSize) (mapped : Option UInt64)
    {blockOffset toCopy : UInt32} (hin : blockOffset.toNat + toCopy.toNat ≤ rd.blockSize.toNat) :
    blockBytes dev rd mapped blockOffset toCopy = pure ((blockContent dev rd mapped).map fun b =>
      (b.drop blockOffset.toNat).take toCopy.toNat) := by
  have hzero : (List.replicate toCopy.toNat (0 : Byte)) =
      ((List.replicate rd.blockSize.toNat (0 : Byte)).drop blockOffset.toNat).take toCopy.toNat := by
    rw [List.drop_replicate, List.take_replicate, Nat.min_eq_left (by omega)]
  cases mapped with
  | none => rw [blockBytes, blockContent, Option.map_some, ← hzero]
  | some physBlock =>
      rw [blockBytes, blockContent]
      cases physBlock != 0 with
      | true =>
          obtain ⟨r, hr, _⟩ := hdev physBlock
          simp only [if_true, hr]
          rfl
      | false =>
          simp only [Bool.false_eq_true, if_false, Option.map_some, ← hzero]

end Content

section Loop

variable {dev : Device Id} {rd : Ext4Reader} {inode : Ext4Inode} {depth : Nat}

def chunk (rd : Ext4Reader) (offset remaining : UInt64) (b : List Byte) : List Byte :=
  (b.drop (offset.toNat % rd.blockSize.toNat)).take
    (min (remaining.toNat % 2 ^ 32) (rd.blockSize.toNat - offset.toNat % rd.blockSize.toNat))

def chunkSize (rd : Ext4Reader) (offset remaining : UInt64) : UInt64 :=
  (min remaining.toUInt32
    (rd.blockSize - (offset % rd.blockSize.toUInt64).toUInt32)).toUInt64

theorem chunkSize_toNat (offset remaining : UInt64) (h : 0 < rd.blockSize.toNat) :
    (chunkSize rd offset remaining).toNat =
      min (remaining.toNat % 2 ^ 32) (rd.blockSize.toNat - offset.toNat % rd.blockSize.toNat) := by
  rw [chunkSize, UInt32.toNat_toUInt64, toCopy_toNat offset remaining h]

theorem copyLoop_succ (hdev : Whole dev rd.blockSize) (h : 0 < rd.blockSize.toNat) (fuel : Nat)
    (offset remaining : UInt64) (written : List Byte) (hrem : remaining ≠ 0) :
    copyLoop dev rd inode depth (fuel + 1) offset remaining written =
      (mapBlock dev rd depth inode (UInt32.ofNat (offset.toNat / rd.blockSize.toNat)) >>=
        fun mapped => match blockContent dev rd mapped with
          | none => pure (false, written)
          | some b => copyLoop dev rd inode depth fuel (offset + chunkSize rd offset remaining)
              (remaining - chunkSize rd offset remaining)
              (written ++ chunk rd offset remaining b)) := by
  have hlt := Nat.mod_lt offset.toNat h
  have hoff := blockOffset_toNat offset h
  have hcopy := toCopy_toNat offset remaining h
  have hz : (remaining == 0) = false := by simpa using hrem
  rw [copyLoop, hz, logicalBlock_eq]
  simp only [Bool.false_eq_true, if_false]
  congr 1
  funext mapped
  rw [blockBytes_eq hdev mapped (by rw [hoff, hcopy]; omega), hoff, hcopy]
  cases blockContent dev rd mapped <;> rfl

variable (dev rd depth inode) in
def mapOf (logicalBlock : UInt32) : Option UInt64 :=
  (result (mapBlock dev rd depth inode logicalBlock)).join

theorem copyLoop_cases (hdev : Whole dev rd.blockSize) (h : 0 < rd.blockSize.toNat) {fuel : Nat}
    {offset remaining : UInt64} {written out : List Byte} {ok : Bool} (hrem : remaining ≠ 0)
    (hrun : copyLoop dev rd inode depth (fuel + 1) offset remaining written = pure (ok, out)) :
    (fileBlock dev rd (mapOf dev rd inode depth) (offset.toNat / rd.blockSize.toNat) = none ∧
        ok = false) ∨
      ∃ b, fileBlock dev rd (mapOf dev rd inode depth) (offset.toNat / rd.blockSize.toNat) = some b ∧
        copyLoop dev rd inode depth fuel (offset + chunkSize rd offset remaining)
          (remaining - chunkSize rd offset remaining) (written ++ chunk rd offset remaining b) =
            pure (ok, out) := by
  rw [copyLoop_succ hdev h fuel offset remaining written hrem, bind_eq_pure] at hrun
  obtain ⟨mapped, hmap, hrun⟩ := hrun
  have hm : mapOf dev rd inode depth (UInt32.ofNat (offset.toNat / rd.blockSize.toNat)) = mapped := by
    rw [mapOf, hmap]
    rfl
  rw [fileBlock, hm]
  cases hb : blockContent dev rd mapped with
  | none =>
      rw [hb] at hrun
      cases pure_injective hrun
      exact Or.inl ⟨rfl, rfl⟩
  | some b =>
      rw [hb] at hrun
      exact Or.inr ⟨b, rfl, hrun⟩

theorem next_toNat {offset remaining : UInt64} (h : 0 < rd.blockSize.toNat)
    (hno : offset.toNat + remaining.toNat < 2 ^ 64) :
    (offset + chunkSize rd offset remaining).toNat =
        offset.toNat + (chunkSize rd offset remaining).toNat ∧
      (remaining - chunkSize rd offset remaining).toNat =
        remaining.toNat - (chunkSize rd offset remaining).toNat ∧
      (chunkSize rd offset remaining).toNat ≤ remaining.toNat := by
  have hle : (chunkSize rd offset remaining).toNat ≤ remaining.toNat := by
    rw [chunkSize_toNat offset remaining h]
    have := Nat.mod_le remaining.toNat (2 ^ 32)
    omega
  refine ⟨?_, UInt64.toNat_sub_of_le _ _ (UInt64.le_iff_toNat_le.mpr hle), hle⟩
  rw [UInt64.toNat_add]
  exact Nat.mod_eq_of_lt (by omega)

theorem chunk_segment (hdev : Whole dev rd.blockSize) {map : UInt32 → Option UInt64}
    {offset remaining : UInt64} {b : List Byte} (h : 0 < rd.blockSize.toNat)
    (hb : fileBlock dev rd map (offset.toNat / rd.blockSize.toNat) = some b) :
    Segment (fileBlock dev rd map) rd.blockSize.toNat offset.toNat (chunk rd offset remaining b) ∧
      (chunk rd offset remaining b).length = (chunkSize rd offset remaining).toNat := by
  have hlt := Nat.mod_lt offset.toNat h
  have hlen := blockContent_length hdev hb
  rw [chunkSize_toNat offset remaining h]
  exact ⟨segment_chunk hb hlen (by omega), length_chunk hlen (by omega)⟩

theorem copyLoop_run (hdev : Whole dev rd.blockSize) (h : 0 < rd.blockSize.toNat) {fuel : Nat}
    {offset remaining : UInt64} {written out : List Byte} {ok : Bool}
    (hno : offset.toNat + remaining.toNat < 2 ^ 64)
    (hrun : copyLoop dev rd inode depth fuel offset remaining written = pure (ok, out)) :
    (ok = true → ∃ data, data.length = remaining.toNat ∧ out = written ++ data ∧
        Segment (fileBlock dev rd (mapOf dev rd inode depth)) rd.blockSize.toNat offset.toNat data) ∧
      (ok = false → ∃ pos, offset.toNat ≤ pos ∧ pos < offset.toNat + remaining.toNat ∧
        fileBlock dev rd (mapOf dev rd inode depth) (pos / rd.blockSize.toNat) = none) := by
  induction fuel generalizing offset remaining written with
  | zero => exact absurd hrun throw_ne_pure
  | succ fuel ih =>
      by_cases hrem : remaining = 0
      · subst hrem
        cases pure_injective hrun
        exact ⟨fun _ => ⟨[], rfl, (List.append_nil _).symm, .nil _⟩,
          fun hok => absurd hok.symm Bool.false_ne_true⟩
      · have hpos : 0 < remaining.toNat := Nat.pos_of_ne_zero fun h0 => hrem (UInt64.toNat_inj.mp h0)
        obtain ⟨hnext, hleft, hle⟩ := next_toNat h hno
        rcases copyLoop_cases hdev h hrem hrun with ⟨hnone, rfl⟩ | ⟨b, hb, hrun'⟩
        · exact ⟨fun hok => absurd hok Bool.false_ne_true,
            fun _ => ⟨offset.toNat, le_rfl, by omega, hnone⟩⟩
        · obtain ⟨hseg, hlen⟩ := chunk_segment hdev h hb
          obtain ⟨htrue, hfalse⟩ := ih (by omega) hrun'
          constructor
          · intro hok
            obtain ⟨data, hdata, rfl, hrest⟩ := htrue hok
            rw [hnext, ← hlen] at hrest
            refine ⟨chunk rd offset remaining b ++ data, ?_, by rw [List.append_assoc],
              hseg.append hrest⟩
            rw [List.length_append, hlen, hdata, hleft]
            omega
          · intro hok
            obtain ⟨pos, hge, hlt, hnone⟩ := hfalse hok
            exact ⟨pos, by omega, by omega, hnone⟩

theorem copyLoop_returns (hdev : Whole dev rd.blockSize) (h : 0 < rd.blockSize.toNat) {fuel : Nat}
    {offset remaining : UInt64} (hmap : ∀ pos, offset.toNat ≤ pos →
      pos < offset.toNat + remaining.toNat →
      ∃ r, mapBlock dev rd depth inode (UInt32.ofNat (pos / rd.blockSize.toNat)) = pure r)
    (written : List Byte) (hsmall : remaining.toNat < 2 ^ 32)
    (hno : offset.toNat + remaining.toNat < 2 ^ 64) (hfuel : remaining.toNat < fuel) :
    ∃ r, copyLoop dev rd inode depth fuel offset remaining written = pure r := by
  induction fuel generalizing offset remaining written with
  | zero => omega
  | succ fuel ih =>
      by_cases hrem : remaining = 0
      · subst hrem
        exact ⟨_, rfl⟩
      · have hpos : 0 < remaining.toNat := Nat.pos_of_ne_zero fun h0 => hrem (UInt64.toNat_inj.mp h0)
        obtain ⟨hnext, hleft, hle⟩ := next_toNat h hno
        have hlt := Nat.mod_lt offset.toNat h
        have hchunk := chunkSize_toNat offset remaining h
        rw [Nat.mod_eq_of_lt hsmall] at hchunk
        obtain ⟨mapped, hm⟩ := hmap offset.toNat le_rfl (by omega)
        rw [copyLoop_succ hdev h fuel offset remaining written hrem, hm, pure_bind]
        cases blockContent dev rd mapped with
        | none => exact ⟨_, rfl⟩
        | some b =>
            exact ih (fun pos hge hlt => hmap pos (by omega) (by omega)) _ (by omega) (by omega)
              (by omega)

end Loop

end Linux2Win.FileContent
