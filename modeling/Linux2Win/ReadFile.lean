import Linux2Win.FileContent
import Linux2Win.PointerTree
import Mathlib.Data.Fintype.EquivFin
import Mathlib.Data.Fintype.Lattice

namespace Linux2Win.ReadFile

open Bytes Devices Ext4Types Reader BlockMap FileData Blocks Programs FileContent PointerTree

variable {dev : Device Id} {rd : Ext4Reader} {inode : Ext4Inode}

theorem parseExtentNode_mono {fuel fuel' : Nat} {blockNum : UInt64} {logicalBlock : UInt32}
    {r : Option UInt64} (hle : fuel ≤ fuel')
    (h : parseExtentNode dev rd fuel blockNum logicalBlock = pure r) :
    parseExtentNode dev rd fuel' blockNum logicalBlock = pure r := by
  induction fuel generalizing fuel' blockNum with
  | zero => exact absurd h throw_ne_pure
  | succ fuel ih =>
      obtain ⟨fuel', rfl⟩ := Nat.exists_eq_add_of_lt hle
      rw [parseExtentNode, bind_eq_pure] at h ⊢
      obtain ⟨node, hread, h⟩ := h
      refine ⟨node, hread, ?_⟩
      cases node with
      | none => exact h
      | some node =>
          cases hs : searchNode node logicalBlock with
          | error f => simp only [hs] at h; exact absurd h throw_ne_pure
          | ok found =>
              simp only [hs] at h ⊢
              cases found with
              | done r => exact h
              | child next => exact ih (by omega) h

theorem mapBlock_mono {depth depth' : Nat} {logicalBlock : UInt32} {r : Option UInt64}
    (hle : depth ≤ depth') (h : mapBlock dev rd depth inode logicalBlock = pure r) :
    mapBlock dev rd depth' inode logicalBlock = pure r := by
  rw [mapBlock] at h ⊢
  cases hx : usesExtents inode with
  | false => rwa [hx] at h
  | true =>
      rw [hx] at h
      simp only [if_true, resolveExtentBlock] at h ⊢
      cases hs : searchNode inode.iBlock logicalBlock with
      | error f => rw [hs] at h; exact absurd h throw_ne_pure
      | ok found =>
          rw [hs] at h
          cases found with
          | done r => exact h
          | child next => exact parseExtentNode_mono hle h

theorem copyLoop_mono {depth depth' fuel fuel' : Nat} {offset remaining : UInt64}
    {written : List Byte} {r : Bool × List Byte} (hdepth : depth ≤ depth') (hfuel : fuel ≤ fuel')
    (h : copyLoop dev rd inode depth fuel offset remaining written = pure r) :
    copyLoop dev rd inode depth' fuel' offset remaining written = pure r := by
  induction fuel generalizing fuel' offset remaining written with
  | zero => exact absurd h throw_ne_pure
  | succ fuel ih =>
      obtain ⟨fuel', rfl⟩ := Nat.exists_eq_add_of_lt hfuel
      rw [copyLoop] at h ⊢
      by_cases hrem : (remaining == 0) = true
      · rwa [if_pos hrem] at h ⊢
      · rw [if_neg hrem] at h ⊢
        obtain ⟨mapped, hmap, h⟩ := bind_eq_pure.mp h
        obtain ⟨bytes, hbytes, h⟩ := bind_eq_pure.mp h
        refine bind_eq_pure.mpr ⟨mapped, mapBlock_mono hdepth hmap, ?_⟩
        refine bind_eq_pure.mpr ⟨bytes, hbytes, ?_⟩
        cases bytes with
        | none => exact h
        | some bytes => exact ih (by omega) h

theorem depths_bounded (depth : UInt32 → Nat) : ∃ bound, ∀ logicalBlock, depth logicalBlock ≤ bound := by
  have : Finite UInt32 := Finite.of_injective UInt32.toFin fun a b h =>
    UInt32.toNat_inj.mp (congrArg Fin.val h)
  obtain ⟨l, hl⟩ := Finite.exists_max depth
  exact ⟨depth l, hl⟩

theorem mapBlock_bounded {C : UInt32 → Prop} {map : UInt32 → Option UInt64}
    (h : ∀ l, C l → ∃ depth, mapBlock dev rd depth inode l = pure (map l)) :
    ∃ bound, ∀ fuel ≥ bound, ∀ l, C l → mapBlock dev rd fuel inode l = pure (map l) := by
  choose! depth hdepth using h
  obtain ⟨bound, hbound⟩ := depths_bounded depth
  exact ⟨bound, fun fuel hfuel l hl => mapBlock_mono ((hbound l).trans hfuel) (hdepth l hl)⟩

theorem followPointers_returns (hdev : Whole dev rd.blockSize) (pointer : UInt32) (path : List Nat) :
    ∃ l, followPointers dev rd pointer path = pure l := by
  induction path generalizing pointer with
  | nil => exact ⟨_, rfl⟩
  | cons i path ih =>
      rw [followPointers]
      split
      · exact ⟨_, rfl⟩
      · obtain ⟨block, hblock, _⟩ := hdev pointer.toUInt64
        rw [hblock, pure_bind]
        cases block with
        | none => exact ⟨_, rfl⟩
        | some block => exact ih _

theorem readIndirectBlock_returns (hdev : Whole dev rd.blockSize) (hacc : Accepted rd.blockSize)
    (logicalBlock : UInt32) : ∃ r, readIndirectBlock dev rd inode logicalBlock = pure r := by
  by_cases h : logicalBlock.toNat <
      12 + pointersPerBlock rd + pointersPerBlock rd * pointersPerBlock rd
  · rw [readIndirectBlock_eq dev hacc inode h, pointerTree]
    cases treePath (pointersPerBlock rd) logicalBlock.toNat with
    | none => exact ⟨_, rfl⟩
    | some found =>
        obtain ⟨slot, path⟩ := found
        obtain ⟨l, hl⟩ := followPointers_returns hdev (pointerAt inode.iBlock slot) path
        exact ⟨l.answer, congrArg (fun x => Lookup.answer <$> x) hl⟩
  · exact ⟨none, readIndirectBlock_beyond dev inode hacc (Nat.not_lt.mp h)⟩

theorem mapBlock_pointers (hdev : Whole dev rd.blockSize) (hacc : Accepted rd.blockSize)
    (hext : usesExtents inode = false) (depth : Nat) (logicalBlock : UInt32) :
    mapBlock dev rd depth inode logicalBlock = pure (mapOf dev rd inode 0 logicalBlock) := by
  obtain ⟨r, hr⟩ : ∃ r, readIndirectBlock dev rd inode logicalBlock = pure r :=
    readIndirectBlock_returns hdev hacc logicalBlock
  rw [mapOf, mapBlock, mapBlock, hext, if_neg Bool.false_ne_true, if_neg Bool.false_ne_true, hr]
  rfl

/-- The byte of a file at a position, under a mapping of its blocks: that of the
block it is mapped to, and zero where it is mapped to none or to block zero. -/
def IsFileByte (dev : Device Id) (rd : Ext4Reader) (map : UInt32 → Option UInt64) (pos : Nat)
    (x : Byte) : Prop :=
  match map (UInt32.ofNat (pos / rd.blockSize.toNat)) with
  | none => x = 0
  | some physBlock =>
    if physBlock = 0 then x = 0
    else ∃ b, readBlock dev physBlock rd.blockSize = pure (some b) ∧
      b[pos % rd.blockSize.toNat]? = some x

def IsUnreadable (dev : Device Id) (rd : Ext4Reader) (map : UInt32 → Option UInt64) (pos : Nat) : Prop :=
  ∃ physBlock, map (UInt32.ofNat (pos / rd.blockSize.toNat)) = some physBlock ∧ physBlock ≠ 0 ∧
    readBlock dev physBlock rd.blockSize = pure none

theorem IsFileByte.not_unreadable {map : UInt32 → Option UInt64} {pos : Nat} {x : Byte}
    (h : IsFileByte dev rd map pos x) : ¬IsUnreadable dev rd map pos := by
  rintro ⟨physBlock, hmap, hp, hnone⟩
  rw [IsFileByte, hmap] at h
  dsimp only at h
  rw [if_neg hp, hnone] at h
  obtain ⟨b, hb, _⟩ := h
  cases pure_injective hb

theorem IsFileByte.unique {map : UInt32 → Option UInt64} {pos : Nat} {x y : Byte}
    (hx : IsFileByte dev rd map pos x) (hy : IsFileByte dev rd map pos y) : x = y := by
  rw [IsFileByte] at hx hy
  cases hmap : map (UInt32.ofNat (pos / rd.blockSize.toNat)) with
  | none =>
      rw [hmap] at hx hy
      exact hx.trans hy.symm
  | some physBlock =>
      rw [hmap] at hx hy
      dsimp only at hx hy
      by_cases hp : physBlock = 0
      · rw [if_pos hp] at hx hy
        exact hx.trans hy.symm
      · rw [if_neg hp] at hx hy
        obtain ⟨b, hb, hbx⟩ := hx
        obtain ⟨c, hc, hcy⟩ := hy
        cases pure_injective (hb.symm.trans hc)
        exact Option.some.inj (hbx.symm.trans hcy)

theorem blockContent_eq_none (hdev : Whole dev rd.blockSize) {mapped : Option UInt64} :
    blockContent dev rd mapped = none ↔ ∃ physBlock, mapped = some physBlock ∧ physBlock ≠ 0 ∧
      readBlock dev physBlock rd.blockSize = pure none := by
  cases mapped with
  | none => exact iff_of_false nofun nofun
  | some physBlock =>
      by_cases hp : physBlock = 0
      · apply iff_of_false (by rw [hp]; nofun)
        rintro ⟨_, ⟨⟩, hne, _⟩
        exact hne hp
      · obtain ⟨r, hr, _⟩ := hdev physBlock
        rw [blockContent_read hp hr]
        constructor
        · rintro rfl
          exact ⟨physBlock, rfl, hp, hr⟩
        · rintro ⟨_, ⟨⟩, _, hnone⟩
          exact pure_injective (hr.symm.trans hnone)

theorem isFileByte_of_byteOf (hdev : Whole dev rd.blockSize) {map : UInt32 → Option UInt64}
    {pos : Nat} {x : Byte}
    (h : byteOf (fileBlock dev rd map) rd.blockSize.toNat pos = some x) :
    IsFileByte dev rd map pos x := by
  have hzero : (List.replicate rd.blockSize.toNat (0 : Byte))[pos % rd.blockSize.toNat]? = some x →
      x = 0 := fun h => List.eq_of_mem_replicate (List.mem_of_getElem? h)
  rw [byteOf, fileBlock] at h
  rw [IsFileByte]
  generalize map (UInt32.ofNat (pos / rd.blockSize.toNat)) = mapped at h ⊢
  cases mapped with
  | none => exact hzero h
  | some physBlock =>
      dsimp only
      by_cases hp : physBlock = 0
      · rw [if_pos hp]
        rw [hp] at h
        exact hzero h
      · obtain ⟨r, hr, _⟩ := hdev physBlock
        rw [blockContent_read hp hr] at h
        rw [if_neg hp]
        obtain ⟨b, rfl, hb⟩ := Option.bind_eq_some_iff.mp h
        exact ⟨b, hr, hb⟩

def readCount (inode : Ext4Inode) (offset size : UInt64) : Nat :=
  min size.toNat ((fileSize inode).toNat - offset.toNat)

def clippedSize (inode : Ext4Inode) (offset size : UInt64) : UInt64 :=
  if offset + size > fileSize inode then fileSize inode - offset else size

theorem clippedSize_toNat {offset size : UInt64} (hlt : offset < fileSize inode)
    (hno : offset.toNat + size.toNat < 2 ^ 64) :
    (clippedSize inode offset size).toNat = readCount inode offset size := by
  have hsum : (offset + size).toNat = offset.toNat + size.toNat := by
    rw [UInt64.toNat_add, Nat.mod_eq_of_lt hno]
  have hle := UInt64.lt_iff_toNat_lt.mp hlt
  rw [clippedSize, readCount]
  split
  · rename_i h
    rw [gt_iff_lt, UInt64.lt_iff_toNat_lt, hsum] at h
    rw [UInt64.toNat_sub_of_le _ _ (UInt64.le_iff_toNat_le.mpr hle.le)]
    omega
  · rename_i h
    rw [gt_iff_lt, UInt64.lt_iff_toNat_lt, hsum] at h
    omega

theorem readFileData_eq (hmounted : rd.mounted = true) {inodeNum : UInt32}
    (hinode : readInode dev rd inodeNum = pure (some inode)) (fuel : Nat) (offset : UInt64)
    (buffer : List Byte) {size : UInt64} (hsize : size ≠ 0) :
    readFileData dev rd fuel inodeNum offset (some buffer) size =
      if offset ≥ fileSize inode then pure ⟨true, buffer, 0⟩
      else copyLoop dev rd inode fuel fuel offset (clippedSize inode offset size) [] >>= fun r =>
        pure ⟨r.1, overlay r.2 buffer, if r.1 then clippedSize inode offset size else 0⟩ := by
  have hz : (size == 0) = false := by simpa using hsize
  rw [readFileData, hmounted, hz, hinode]
  simp only [Bool.not_true, Bool.or_self, Bool.false_eq_true, if_false, pure_bind]
  split
  · rfl
  · congr 1
    funext r
    obtain ⟨ok, written⟩ := r
    cases ok <;> rfl

theorem copyLoop_spec (hdev : Whole dev rd.blockSize) (h : 0 < rd.blockSize.toNat) {depth fuel : Nat}
    {offset remaining : UInt64} {out : List Byte} {ok : Bool}
    (hno : offset.toNat + remaining.toNat < 2 ^ 64)
    (hrun : copyLoop dev rd inode depth fuel offset remaining [] = pure (ok, out)) :
    (ok = false ↔ ∃ pos, offset.toNat ≤ pos ∧ pos < offset.toNat + remaining.toNat ∧
        IsUnreadable dev rd (mapOf dev rd inode depth) pos) ∧
      (ok = true → out.length = remaining.toNat ∧ ∀ i (h : i < out.length),
        IsFileByte dev rd (mapOf dev rd inode depth) (offset.toNat + i) out[i]) := by
  obtain ⟨htrue, hfalse⟩ := copyLoop_run hdev h hno hrun
  refine ⟨⟨fun hok => ?_, ?_⟩, fun hok => ?_⟩
  · obtain ⟨pos, hge, hlt, hnone⟩ := hfalse hok
    exact ⟨pos, hge, hlt, (blockContent_eq_none hdev).mp hnone⟩
  · rintro ⟨pos, hge, hlt, hbad⟩
    refine Bool.eq_false_iff.mpr fun hok => ?_
    obtain ⟨data, hlen, _, hseg⟩ := htrue hok
    have hbyte := hseg (pos - offset.toNat) (by omega)
    rw [Nat.add_sub_of_le hge, byteOf, fileBlock, (blockContent_eq_none hdev).mpr hbad] at hbyte
    cases hbyte
  · obtain ⟨data, hlen, rfl, hseg⟩ := htrue hok
    exact ⟨hlen, fun i hi => isFileByte_of_byteOf hdev (hseg i hi)⟩

theorem readFileData_reads (hmounted : rd.mounted = true) (hdev : Whole dev rd.blockSize)
    {inodeNum : UInt32} (hinode : readInode dev rd inodeNum = pure (some inode)) {fuel : Nat}
    {map : UInt32 → Option UInt64} {offset size : UInt64}
    (hmap : ∀ pos, offset.toNat ≤ pos → pos < offset.toNat + size.toNat →
      mapBlock dev rd fuel inode (UInt32.ofNat (pos / rd.blockSize.toNat)) =
        pure (map (UInt32.ofNat (pos / rd.blockSize.toNat))))
    (buffer : List Byte) (hsize : 0 < size.toNat)
    (hsmall : size.toNat < 2 ^ 32) (hno : offset.toNat + size.toNat < 2 ^ 64)
    (hfuel : size.toNat < fuel) (hlt : offset < fileSize inode) :
    ∃ ok out, readFileData dev rd fuel inodeNum offset (some buffer) size =
        pure ⟨ok, overlay out buffer, if ok then clippedSize inode offset size else 0⟩ ∧
      (ok = false ↔ ∃ pos, offset.toNat ≤ pos ∧
        pos < offset.toNat + readCount inode offset size ∧ IsUnreadable dev rd map pos) ∧
      (ok = true → out.length = readCount inode offset size ∧
        ∀ i (h : i < out.length), IsFileByte dev rd map (offset.toNat + i) out[i]) := by
  have hpos := (Accepted.bounds (rd.geometry hmounted).1).1
  have hne : size ≠ 0 := by
    rintro rfl
    exact absurd hsize (by decide)
  have hclip := clippedSize_toNat hlt hno
  have hcount : readCount inode offset size ≤ size.toNat := Nat.min_le_left _ _
  have hmapOf : ∀ pos, offset.toNat ≤ pos → pos < offset.toNat + readCount inode offset size →
      mapOf dev rd inode fuel (UInt32.ofNat (pos / rd.blockSize.toNat)) =
        map (UInt32.ofNat (pos / rd.blockSize.toNat)) := by
    intro pos hge hlt
    rw [mapOf, hmap pos hge (by omega)]
    rfl
  obtain ⟨⟨ok, out⟩, hloop⟩ := copyLoop_returns hdev hpos
    (fun pos hge hlt => ⟨_, hmap pos hge (by omega)⟩) []
    (by omega : (clippedSize inode offset size).toNat < 2 ^ 32)
    (by omega : offset.toNat + _ < 2 ^ 64) (by omega : _ < fuel)
  obtain ⟨hbad, hgood⟩ := copyLoop_spec hdev hpos (by omega) hloop
  rw [hclip] at hbad hgood
  refine ⟨ok, out, ?_, hbad.trans ?_, fun hok => ?_⟩
  · rw [readFileData_eq hmounted hinode fuel offset buffer hne, if_neg (UInt64.not_le.mpr hlt), hloop,
      pure_bind]
  · refine exists_congr fun pos => and_congr_right fun hge => and_congr_right fun hlt => ?_
    rw [IsUnreadable, IsUnreadable, hmapOf pos hge hlt]
  · obtain ⟨hlen, hbytes⟩ := hgood hok
    refine ⟨hlen, fun i hi => ?_⟩
    have hbyte := hbytes i hi
    rwa [IsFileByte, hmapOf (offset.toNat + i) (by omega) (by omega), ← IsFileByte] at hbyte

/-- The contract of `read_file_data` over the mapping of the file's blocks. The
number of a block is taken modulo 2^32, so nothing is asked of the file's size. -/
theorem readFileData_spec (disk : Disk) (w : BlockDevice) (rd : Ext4Reader)
    (hmounted : rd.mounted = true) (inodeNum : UInt32) (inode : Ext4Inode)
    (hinode : readInode (disk.device w) rd inodeNum = pure (some inode))
    (map : UInt32 → Option UInt64)
    (hmap : ∀ logicalBlock, ∃ depth,
      mapBlock (disk.device w) rd depth inode logicalBlock = pure (map logicalBlock))
    (buffer : List Byte) (offset size : UInt64) (hsize : 0 < size.toNat)
    (hsmall : size.toNat < 2 ^ 32) (hno : offset.toNat + size.toNat < 2 ^ 64) :
    ∃ depth, ∀ fuel ≥ depth, ∃ r,
      readFileData (disk.device w) rd fuel inodeNum offset (some buffer) size = pure r ∧
      (fileSize inode ≤ offset → r = ⟨true, buffer, 0⟩) ∧
      (offset < fileSize inode →
        (r.ok = false ↔ ∃ pos, offset.toNat ≤ pos ∧
          pos < offset.toNat + readCount inode offset size ∧
          IsUnreadable (disk.device w) rd map pos) ∧
        (r.ok = false → r.bytesRead = 0) ∧
        (r.ok = true → r.bytesRead.toNat = readCount inode offset size ∧
          ∃ data, data.length = readCount inode offset size ∧ r.buffer = overlay data buffer ∧
            ∀ i (h : i < data.length),
              IsFileByte (disk.device w) rd map (offset.toNat + i) data[i])) := by
  have hdev := disk_whole disk w (rd.geometry hmounted).1
  have hne : size ≠ 0 := by
    rintro rfl
    exact absurd hsize (by decide)
  obtain ⟨bound, hbound⟩ := mapBlock_bounded (C := fun _ => True) fun l _ => hmap l
  refine ⟨max bound (size.toNat + 1), fun fuel hfuel => ?_⟩
  by_cases heof : offset ≥ fileSize inode
  · refine ⟨_, ?_, fun _ => rfl, fun h => absurd heof (UInt64.not_le.mpr h)⟩
    rw [readFileData_eq hmounted hinode fuel offset buffer hne, if_pos heof]
  · have hlt := UInt64.not_le.mp heof
    obtain ⟨ok, out, hread, hbad, hgood⟩ := readFileData_reads hmounted hdev hinode
      (fun _ _ _ => hbound fuel (by omega) _ trivial) buffer hsize hsmall hno (by omega) hlt
    refine ⟨_, hread, fun h => absurd h heof, fun _ => ⟨hbad, fun hok => ?_, fun hok => ?_⟩⟩
    · exact if_neg (Bool.eq_false_iff.mp hok)
    · obtain ⟨hlen, hbytes⟩ := hgood hok
      exact ⟨(congrArg UInt64.toNat (if_pos hok)).trans (clippedSize_toNat hlt hno), out, hlen, rfl,
        hbytes⟩

def sparseDisk : Disk :=
  .ofPieces 16384
    [(2056, le32Bytes 5), (6400, le16Bytes 0x8180 ++ [0, 0] ++ le32Bytes 1500), (6440, le32Bytes 8),
      (8192, [0x68, 0x65, 0x6C, 0x6C, 0x6F])]

def sparseDevice : Device Id := sparseDisk.device wholeDevice

def sparseInode : Ext4Inode :=
  (result (readInode sparseDevice (plainReader 16) 11)).join.getD (Packed.zero 160)

theorem sparseInode_indirect : usesExtents sparseInode = false := by decide +kernel

theorem readFileData_spec_sparse : ∃ depth, ∀ fuel ≥ depth, ∃ r,
    readFileData sparseDevice (plainReader 16) fuel 11 1000 (some (List.replicate 600 1)) 600 =
        pure r ∧ (r.ok = true → r.bytesRead.toNat = 500) := by
  have hdev := disk_whole sparseDisk wholeDevice (plainReader_accepted 16)
  have hmap : ∀ l, ∃ depth, mapBlock sparseDevice (plainReader 16) depth sparseInode l =
      pure (mapOf sparseDevice (plainReader 16) sparseInode 0 l) := fun l =>
    ⟨0, mapBlock_pointers hdev (plainReader_accepted 16) sparseInode_indirect 0 l⟩
  have hlt : (1000 : UInt64) < fileSize sparseInode := by decide +kernel
  have hcount : readCount sparseInode 1000 600 = 500 := by decide +kernel
  obtain ⟨depth, hdepth⟩ := readFileData_spec sparseDisk wholeDevice (plainReader 16) rfl 11
    sparseInode (eq_pure_getD (by decide +kernel) _) _ hmap (List.replicate 600 1) 1000 600
    (by decide) (by decide) (by decide)
  refine ⟨depth, fun fuel hfuel => ?_⟩
  obtain ⟨r, hr, _, hspec⟩ := hdepth fuel hfuel
  refine ⟨r, hr, fun hok => ?_⟩
  obtain ⟨_, _, htrue⟩ := hspec hlt
  rw [(htrue hok).1, hcount]

end Linux2Win.ReadFile
