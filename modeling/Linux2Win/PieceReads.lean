import Linux2Win.Gathers
import Linux2Win.ReadFile

namespace Linux2Win.PieceReads

open Bytes Devices Ext4Types Reader BlockMap FileData Blocks Programs FileContent ReadFile Gathers

section Loop

variable {dev : Device Id} {rd : Ext4Reader} {inode : Ext4Inode} {depth : Nat}

variable (dev rd inode depth) in
def fileByte (pos : Nat) : ExceptT Fault Id (Option Byte) :=
  (fun mapped => (blockContent dev rd mapped).bind (·[pos % rd.blockSize.toNat]?)) <$>
    mapBlock dev rd depth inode (UInt32.ofNat (pos / rd.blockSize.toNat))

theorem chunk_length (hdev : Whole dev rd.blockSize) (h : 0 < rd.blockSize.toNat)
    (offset remaining : UInt64) {mapped : Option UInt64} {b : List Byte}
    (hb : blockContent dev rd mapped = some b) :
    (chunk rd offset remaining b).length = (chunkSize rd offset remaining).toNat := by
  have hlt := Nat.mod_lt offset.toNat h
  rw [chunkSize_toNat offset remaining h]
  exact length_chunk (blockContent_length hdev hb) (by omega)

theorem fileByte_chunk (hdev : Whole dev rd.blockSize) (h : 0 < rd.blockSize.toNat)
    {offset remaining : UInt64} {mapped : Option UInt64} {b : List Byte}
    (hmap : mapBlock dev rd depth inode (UInt32.ofNat (offset.toNat / rd.blockSize.toNat)) = pure mapped)
    (hb : blockContent dev rd mapped = some b) (i : Nat) (hi : i < (chunk rd offset remaining b).length) :
    fileByte dev rd inode depth (offset.toNat + i) = pure (some (chunk rd offset remaining b)[i]) := by
  have hlt := Nat.mod_lt offset.toNat h
  have hlen := blockContent_length hdev hb
  have hin : offset.toNat % rd.blockSize.toNat + i < rd.blockSize.toNat := by
    rw [chunk, List.length_take, List.length_drop] at hi
    omega
  obtain ⟨hdiv, hmod⟩ := div_mod_within hin
  have hbyte : b[offset.toNat % rd.blockSize.toNat + i]? = some (chunk rd offset remaining b)[i] := by
    rw [← List.getElem?_eq_getElem hi, chunk, List.getElem?_take_of_lt, List.getElem?_drop]
    rw [chunk, List.length_take] at hi
    omega
  rw [fileByte, hdiv, hmap, map_pure, hb, Option.bind_some, hmod, hbyte]

/-- The loop, which copies what it can of a block at a time, does what a loop over
the bytes would do. -/
theorem copyLoop_gathers (hdev : Whole dev rd.blockSize) (h : 0 < rd.blockSize.toNat) {fuel : Nat}
    {offset remaining : UInt64} (written : List Byte) (hsmall : remaining.toNat < 2 ^ 32)
    (hno : offset.toNat + remaining.toNat < 2 ^ 64) (hfuel : remaining.toNat < fuel) :
    copyLoop dev rd inode depth fuel offset remaining written =
      gather (fileByte dev rd inode depth) offset.toNat remaining.toNat written := by
  induction fuel generalizing offset remaining written with
  | zero => omega
  | succ fuel ih =>
      by_cases hrem : remaining = 0
      · subst hrem
        rfl
      · have hpos : 0 < remaining.toNat := Nat.pos_of_ne_zero fun h0 => hrem (UInt64.toNat_inj.mp h0)
        obtain ⟨count, hcount⟩ := Nat.exists_eq_succ_of_ne_zero hpos.ne'
        obtain ⟨hnext, hleft, hle⟩ := next_toNat h hno
        rw [copyLoop_succ hdev h fuel offset remaining written hrem]
        rcases pure_or_throw (mapBlock dev rd depth inode
          (UInt32.ofNat (offset.toNat / rd.blockSize.toNat))) with ⟨mapped, hmap⟩ | ⟨f, hmap⟩
        · rw [hmap, pure_bind]
          cases hb : blockContent dev rd mapped with
          | none =>
              have hbyte : fileByte dev rd inode depth offset.toNat = pure none := by
                rw [fileByte, hmap, map_pure, hb, Option.bind_none]
              rw [hcount, gather, hbyte]
              rfl
          | some b =>
              have hlen := chunk_length hdev h offset remaining hb
              have hlt := Nat.mod_lt offset.toNat h
              have hchunk := chunkSize_toNat offset remaining h
              rw [Nat.mod_eq_of_lt hsmall] at hchunk
              have hsum : remaining.toNat = (chunk rd offset remaining b).length +
                  (remaining - chunkSize rd offset remaining).toNat := by
                omega
              rw [hsum, gather_run (fileByte_chunk hdev h hmap hb), hlen, ← hnext]
              exact ih _ (by omega) (by omega) (by omega)
        · have hbyte : fileByte dev rd inode depth offset.toNat = throw f := by
            rw [fileByte, hmap, map_throw]
          rw [hmap, hcount, gather, hbyte]
          rfl

end Loop

section Calls

variable {m : Type → Type} [Monad m] (dev : Device m) (rd : Ext4Reader) (fuel : Nat) (inodeNum : UInt32)

def readPiece (offset size : UInt64) : ExceptT Fault m (Option (List Byte)) := do
  let r ← readFileData dev rd fuel inodeNum offset (some (List.replicate size.toNat 0)) size
  return if r.ok then some (r.buffer.take r.bytesRead.toNat) else none

def readPieces : UInt64 → List UInt64 → ExceptT Fault m (Option (List Byte))
  | _, [] => return some []
  | offset, size :: sizes => do
      match ← readPiece dev rd fuel inodeNum offset size with
      | none => return none
      | some bytes => return (← readPieces (offset + size) sizes).map (bytes ++ ·)

end Calls

section Pieces

variable {dev : Device Id} {rd : Ext4Reader} {inode : Ext4Inode} {inodeNum : UInt32} {fuel : Nat}

def taken (r : Bool × List Byte) : Option (List Byte) := if r.1 then some r.2 else none

theorem readPiece_gathers (hmounted : rd.mounted = true) (hdev : Whole dev rd.blockSize)
    (hinode : readInode dev rd inodeNum = pure (some inode)) {offset size : UInt64} (hsize : size ≠ 0)
    (hsmall : size.toNat < 2 ^ 32) (hno : offset.toNat + size.toNat < 2 ^ 64)
    (hfuel : size.toNat < fuel) :
    readPiece dev rd fuel inodeNum offset size =
      taken <$> gather (fileByte dev rd inode fuel) offset.toNat (readCount inode offset size) [] := by
  have hpos := (rd.geometry hmounted).1.bounds.1
  rw [readPiece, readFileData_eq hmounted hinode fuel offset _ hsize]
  by_cases hge : offset ≥ fileSize inode
  · have hnone : readCount inode offset size = 0 := by
      rw [readCount, Nat.sub_eq_zero_of_le (UInt64.le_iff_toNat_le.mp hge), Nat.min_zero]
    rw [if_pos hge, hnone]
    rfl
  · have hclip := clippedSize_toNat (UInt64.not_le.mp hge) hno
    have hcount : readCount inode offset size ≤ size.toNat := Nat.min_le_left _ _
    rw [if_neg hge, copyLoop_gathers hdev hpos [] (by omega) (by omega) (by omega), hclip]
    rcases pure_or_throw (gather (fileByte dev rd inode fuel) offset.toNat
      (readCount inode offset size) []) with ⟨⟨ok, out⟩, hrun⟩ | ⟨f, hrun⟩
    · have hlength := (gather_length hrun).2
      rw [hrun, pure_bind, pure_bind, map_pure]
      cases ok with
      | false => rfl
      | true =>
          rw [List.length_nil, Nat.zero_add, ← hclip] at hlength
          rw [if_pos rfl, if_pos rfl, ← hlength.mp rfl, overlay, List.take_left]
          rfl
    · rw [hrun, map_throw]
      rfl

theorem readPieces_gathers (hmounted : rd.mounted = true) (hdev : Whole dev rd.blockSize)
    (hinode : readInode dev rd inodeNum = pure (some inode)) (offset : UInt64) (sizes : List UInt64)
    (hsize : ∀ size ∈ sizes, size ≠ 0) (hsmall : (sizes.map UInt64.toNat).sum < 2 ^ 32)
    (hno : offset.toNat + (sizes.map UInt64.toNat).sum < 2 ^ 64)
    (hfuel : (sizes.map UInt64.toNat).sum < fuel) :
    readPieces dev rd fuel inodeNum offset sizes =
      taken <$> gather (fileByte dev rd inode fuel) offset.toNat
        (min (sizes.map UInt64.toNat).sum ((fileSize inode).toNat - offset.toNat)) [] := by
  induction sizes generalizing offset with
  | nil =>
      rw [List.map_nil, List.sum_nil, Nat.zero_min]
      rfl
  | cons size sizes ih =>
      rw [List.map_cons, List.sum_cons] at hsmall hno hfuel
      have hnext : (offset + size).toNat = offset.toNat + size.toNat := by
        rw [UInt64.toNat_add, Nat.mod_eq_of_lt (by omega)]
      have hrest := ih (offset + size) (fun s hs => hsize s (List.mem_cons_of_mem _ hs)) (by omega)
        (by omega) (by omega)
      obtain ⟨more, hmore⟩ : ∃ more, more = min (sizes.map UInt64.toNat).sum
        ((fileSize inode).toNat - (offset + size).toNat) := ⟨_, rfl⟩
      have hsplit : min (size.toNat + (sizes.map UInt64.toNat).sum)
          ((fileSize inode).toNat - offset.toNat) = readCount inode offset size + more := by
        rw [hmore, hnext, readCount]
        omega
      -- Past the end of the file nothing is taken, wherever it would be taken from.
      have hfrom : ∀ out, gather (fileByte dev rd inode fuel) (offset + size).toNat more out =
          gather (fileByte dev rd inode fuel) (offset.toNat + readCount inode offset size) more out := by
        intro out
        rcases Nat.eq_zero_or_pos more with hzero | hpos
        · rw [hzero]
          rfl
        · have hwhole : readCount inode offset size = size.toNat := by
            rw [readCount]
            omega
          rw [hnext, hwhole]
      rw [readPieces, readPiece_gathers hmounted hdev hinode (hsize size List.mem_cons_self) (by omega)
        (by omega) (by omega), hrest, ← hmore, List.map_cons, List.sum_cons, hsplit, gather_add]
      rcases pure_or_throw (gather (fileByte dev rd inode fuel) offset.toNat
        (readCount inode offset size) []) with ⟨⟨ok, out⟩, hrun⟩ | ⟨f, hrun⟩
      · rw [hrun, map_pure, pure_bind, pure_bind]
        cases ok with
        | false => rfl
        | true =>
            have hout := gather_out (fileByte dev rd inode fuel)
              (offset.toNat + readCount inode offset size) more out []
            rw [List.append_nil] at hout
            rw [if_pos rfl, hout, ← hfrom]
            change (taken <$> gather _ _ more []) >>= _ = _
            rw [map_eq_pure_bind, bind_assoc, map_eq_pure_bind, map_eq_pure_bind, bind_assoc]
            refine bind_congr fun r => ?_
            rw [pure_bind, pure_bind, taken, taken]
            cases r.1 <;> rfl
      · rw [hrun, map_throw]
        rfl

theorem readPiece_missing (h : rd.mounted = false ∨ readInode dev rd inodeNum = pure none)
    (offset size : UInt64) : readPiece dev rd fuel inodeNum offset size = pure none := by
  rw [readPiece, readFileData]
  rcases h with hmounted | hinode
  · rw [hmounted]
    rfl
  · rw [hinode]
    by_cases hcond : (!rd.mounted || size == 0) = true
    · rw [if_pos hcond]
      rfl
    · rw [if_neg hcond]
      rfl

theorem readPiece_fault (hmounted : rd.mounted = true) {f : Fault}
    (hinode : readInode dev rd inodeNum = throw f) (offset : UInt64) {size : UInt64} (hsize : size ≠ 0) :
    readPiece dev rd fuel inodeNum offset size = throw f := by
  have hcond : ¬(!rd.mounted || size == 0) = true := by simp [hmounted, hsize]
  rw [readPiece, readFileData, if_neg hcond, hinode]
  rfl

end Pieces

/-- However a range of a file is cut into consecutive reads, they give together what one
read of the whole range gives, and they fail where it fails. -/
theorem read_in_pieces (disk : Disk) (w : BlockDevice) (rd : Ext4Reader) (fuel : Nat)
    (inodeNum : UInt32) (offset : UInt64) (sizes : List UInt64) (hne : sizes ≠ [])
    (hsize : ∀ size ∈ sizes, size ≠ 0) (hsmall : (sizes.map UInt64.toNat).sum < 2 ^ 32)
    (hno : offset.toNat + (sizes.map UInt64.toNat).sum < 2 ^ 64)
    (hfuel : (sizes.map UInt64.toNat).sum < fuel) :
    readPieces (disk.device w) rd fuel inodeNum offset sizes =
      readPiece (disk.device w) rd fuel inodeNum offset (.ofNat (sizes.map UInt64.toNat).sum) := by
  obtain ⟨first, rest, rfl⟩ := List.exists_cons_of_ne_nil hne
  obtain ⟨size, hsizeEq⟩ : ∃ size, size = UInt64.ofNat ((first :: rest).map UInt64.toNat).sum :=
    ⟨_, rfl⟩
  have hsum : size.toNat = ((first :: rest).map UInt64.toNat).sum := by
    rw [hsizeEq, UInt64.toNat_ofNat', Nat.mod_eq_of_lt (by omega)]
  have hfirst := hsize first List.mem_cons_self
  have hpos : size ≠ 0 := by
    intro hzero
    rw [hzero, List.map_cons, List.sum_cons, UInt64.toNat_zero] at hsum
    exact hfirst (UInt64.toNat_inj.mp (by rw [UInt64.toNat_zero]; omega))
  rw [← hsizeEq]
  have hmissing (h : rd.mounted = false ∨ readInode (disk.device w) rd inodeNum = pure none) :
      readPieces (disk.device w) rd fuel inodeNum offset (first :: rest) =
        readPiece (disk.device w) rd fuel inodeNum offset size := by
    rw [readPieces, readPiece_missing h, readPiece_missing h]
    rfl
  cases hmounted : rd.mounted with
  | false => exact hmissing (Or.inl hmounted)
  | true =>
      have hdev := disk_whole disk w (rd.geometry hmounted).1
      rcases pure_or_throw (readInode (disk.device w) rd inodeNum) with ⟨found, hinode⟩ | ⟨f, hinode⟩
      · cases found with
        | none => exact hmissing (Or.inr hinode)
        | some inode =>
            rw [readPieces_gathers hmounted hdev hinode offset _ hsize hsmall hno hfuel,
              readPiece_gathers hmounted hdev hinode hpos (by omega) (by omega) (by omega), readCount,
              hsum]
      · rw [readPieces, readPiece_fault hmounted hinode offset hfirst,
          readPiece_fault hmounted hinode offset hpos]
        rfl

theorem read_in_pieces_sparse :
    readPieces sparseDevice (plainReader 16) 2000 11 3 [1000, 5, 600] =
      readPiece sparseDevice (plainReader 16) 2000 11 3 1605 :=
  read_in_pieces sparseDisk wholeDevice (plainReader 16) 2000 11 3 [1000, 5, 600] (by decide) (by simp)
    (by decide) (by decide) (by decide)

end Linux2Win.PieceReads
