import Linux2Win.ReadFile
import Linux2Win.Walks

namespace Linux2Win.CopyTurns

open Bytes Devices Ext4Types Reader BlockMap FileData Blocks Programs FileContent PointerTree ReadFile
  Walks

section Turn

variable {m : Type → Type} [Monad m] (dev : Device m) (rd : Ext4Reader)

/-- One turn of the loop of `read_file_data`: the bytes that it stores, with the
`curr_offset` and the `remaining` that it leaves, or none where it returns false. -/
def turn (depth : Nat) (inode : Ext4Inode) (currOffset remaining : UInt64) :
    ExceptT Fault m (Option (List Byte × UInt64 × UInt64)) := do
  let logicalBlock := (currOffset / rd.blockSize.toUInt64).toUInt32
  let blockOffset := (currOffset % rd.blockSize.toUInt64).toUInt32
  let toCopy := min remaining.toUInt32 (rd.blockSize - blockOffset)
  let mapped ← mapBlock dev rd depth inode logicalBlock
  return (← blockBytes dev rd mapped blockOffset toCopy).map fun bytes =>
    (bytes, currOffset + toCopy.toUInt64, remaining - toCopy.toUInt64)

theorem copyLoop_turn [LawfulMonad m] (inode : Ext4Inode) (depth fuel : Nat)
    {currOffset remaining : UInt64} (written : List Byte) (hrem : remaining ≠ 0) :
    copyLoop dev rd inode depth (fuel + 1) currOffset remaining written =
      turn dev rd depth inode currOffset remaining >>= fun t => t.elim (pure (false, written))
        fun t => copyLoop dev rd inode depth fuel t.2.1 t.2.2 (written ++ t.1) := by
  have hz : (remaining == 0) = false := by simpa using hrem
  rw [copyLoop, turn, hz]
  simp only [Bool.false_eq_true, if_false, bind_assoc, pure_bind]
  refine bind_congr fun mapped => bind_congr fun bytes => ?_
  cases bytes <;> rfl

end Turn

section States

variable (dev : Device Id) (rd : Ext4Reader) (inode : Ext4Inode)

def nextTurn (depth : Nat) (s : UInt64 × UInt64) : Option (UInt64 × UInt64) :=
  if s.2 = 0 then none
  else (result (turn dev rd depth inode s.1 s.2)).join.map Prod.snd

def turnBound (size : UInt64) : Nat :=
  (size.toNat + rd.blockSize.toNat - 1) / rd.blockSize.toNat + 1

/-- Every turn that the loop of a read comes to and completes makes progress, and the
loop is over within the bound: the last test of its condition takes one more unit. -/
structure Progress (depth : Nat) (offset size : UInt64) : Prop where
  turns : Along (nextTurn dev rd inode depth)
    (fun s => s.2 ≠ 0 → ∀ bytes s', turn dev rd depth inode s.1 s.2 = pure (some (bytes, s')) →
      1 ≤ bytes.length ∧ bytes.length ≤ rd.blockSize.toNat ∧ s'.2 < s.2)
    (some (offset, clippedSize inode offset size))
  returns : ∃ r, copyLoop dev rd inode depth (turnBound rd size + 1) offset
    (clippedSize inode offset size) [] = pure r

/-- The loop is entered below the end of the file only. -/
def MakesProgress (offset size : UInt64) : Prop :=
  offset < fileSize inode → ∃ bound, ∀ depth ≥ bound, Progress dev rd inode depth offset size

/-- The read asks for less than 2^32 bytes, or comes to a block that cannot be read no
later than where the low half of its count is used up. -/
def CountFits (map : UInt32 → Option UInt64) (offset size : UInt64) : Prop :=
  offset < fileSize inode → (clippedSize inode offset size).toNat < 2 ^ 32 ∨
    ∃ i ≤ (clippedSize inode offset size).toNat % 2 ^ 32,
      IsUnreadable dev rd map (offset + UInt64.ofNat i).toNat

end States

section Arithmetic

variable {rd : Ext4Reader} {offset remaining : UInt64}

/-- Positions are numbers modulo 2^64; they wrap around between two blocks. -/
theorem within_block (hacc : Accepted rd.blockSize) {i : Nat}
    (hi : offset.toNat % rd.blockSize.toNat + i < rd.blockSize.toNat) :
    (offset + UInt64.ofNat i).toNat / rd.blockSize.toNat = offset.toNat / rd.blockSize.toNat := by
  obtain ⟨k, hk⟩ := hacc.dvd
  have hpos := (Accepted.bounds hacc).1
  have hlt : offset.toNat / rd.blockSize.toNat < k := by
    rw [Nat.div_lt_iff_lt_mul hpos, Nat.mul_comm, ← hk]
    exact offset.toNat_lt
  have hblock := Nat.mul_le_mul_left rd.blockSize.toNat (Nat.succ_le_of_lt hlt)
  rw [Nat.mul_succ, ← hk] at hblock
  have hmod := Nat.div_add_mod offset.toNat rd.blockSize.toNat
  rw [UInt64.toNat_add, UInt64.toNat_ofNat', Nat.mod_eq_of_lt (a := i) (by omega),
    Nat.mod_eq_of_lt (by omega)]
  exact (div_mod_within hi).1

theorem offset_zero (offset : UInt64) : offset + UInt64.ofNat 0 = offset := UInt64.add_zero offset

theorem offset_split {c : UInt64} {i : Nat} (hi : c.toNat ≤ i) :
    offset + c + UInt64.ofNat (i - c.toNat) = offset + UInt64.ofNat i := by
  rw [UInt64.add_assoc, ← UInt64.ofNat_toNat (x := c), ← UInt64.ofNat_add, UInt64.ofNat_toNat,
    Nat.add_sub_cancel' hi]

variable (offset) in
/-- A turn moves on from a number of bytes that is not a multiple of 2^32, and leaves
the high half of the count as it is. -/
theorem turn_moves (hacc : Accepted rd.blockSize) (hq : 0 < remaining.toNat % 2 ^ 32) :
    1 ≤ (chunkSize rd offset remaining).toNat ∧
      (chunkSize rd offset remaining).toNat ≤ rd.blockSize.toNat ∧
      (chunkSize rd offset remaining).toNat ≤ remaining.toNat % 2 ^ 32 ∧
      (remaining - chunkSize rd offset remaining).toNat =
        remaining.toNat - (chunkSize rd offset remaining).toNat := by
  have hpos := (Accepted.bounds hacc).1
  have hlt := Nat.mod_lt offset.toNat hpos
  have hmod := Nat.mod_le remaining.toNat (2 ^ 32)
  have hsize := chunkSize_toNat offset remaining hpos
  exact ⟨by omega, by omega, by omega,
    UInt64.toNat_sub_of_le _ _ (UInt64.le_iff_toNat_le.mpr (by omega))⟩

def turnsLeft (rd : Ext4Reader) (offset remaining : UInt64) : Nat :=
  if remaining.toNat % 2 ^ 32 = 0 then 0
  else (offset.toNat % rd.blockSize.toNat + remaining.toNat % 2 ^ 32 - 1) / rd.blockSize.toNat + 1

variable (offset) in
theorem turnsLeft_next (hacc : Accepted rd.blockSize) (hq : 0 < remaining.toNat % 2 ^ 32) :
    turnsLeft rd (offset + chunkSize rd offset remaining)
        (remaining - chunkSize rd offset remaining) < turnsLeft rd offset remaining := by
  have hpos := (Accepted.bounds hacc).1
  have hlt := Nat.mod_lt offset.toNat hpos
  have hsize := chunkSize_toNat offset remaining hpos
  obtain ⟨_, _, hle, hleft⟩ := turn_moves offset hacc hq
  have hmod : (remaining - chunkSize rd offset remaining).toNat % 2 ^ 32 =
      remaining.toNat % 2 ^ 32 - (chunkSize rd offset remaining).toNat := by omega
  have hturns : turnsLeft rd offset remaining = _ := if_neg hq.ne'
  rw [hturns, turnsLeft, hmod]
  split
  · exact Nat.succ_pos _
  · -- the turn has gone to the end of its block
    have hend : (chunkSize rd offset remaining).toNat =
        rd.blockSize.toNat - offset.toNat % rd.blockSize.toNat := by omega
    have hstart : (offset + chunkSize rd offset remaining).toNat % rd.blockSize.toNat = 0 := by
      rw [UInt64.toNat_add, Nat.mod_mod_of_dvd _ (hacc.dvd), hend, ← Nat.mod_add_mod,
        Nat.add_sub_cancel' hlt.le, Nat.mod_self]
    have hsum : offset.toNat % rd.blockSize.toNat + remaining.toNat % 2 ^ 32 - 1 =
        remaining.toNat % 2 ^ 32 - (chunkSize rd offset remaining).toNat - 1 +
          rd.blockSize.toNat := by omega
    rw [hstart, Nat.zero_add, hsum, Nat.add_div_right _ hpos]
    omega

end Arithmetic

section Loop

variable {dev : Device Id} {rd : Ext4Reader} {inode : Ext4Inode} {map : UInt32 → Option UInt64}
  {depth : Nat} {offset remaining : UInt64}

theorem fileBlock_eq_none (hdev : Whole dev rd.blockSize) {pos : Nat} :
    fileBlock dev rd map (pos / rd.blockSize.toNat) = none ↔ IsUnreadable dev rd map pos :=
  blockContent_eq_none hdev

variable (offset remaining) in
theorem turn_eq (hdev : Whole dev rd.blockSize) (hpos : 0 < rd.blockSize.toNat)
    (hmap : ∀ l, mapBlock dev rd depth inode l = pure (map l)) :
    turn dev rd depth inode offset remaining =
      pure ((fileBlock dev rd map (offset.toNat / rd.blockSize.toNat)).map fun b =>
        (chunk rd offset remaining b, offset + chunkSize rd offset remaining,
          remaining - chunkSize rd offset remaining)) := by
  have hlt := Nat.mod_lt offset.toNat hpos
  have hoff := blockOffset_toNat offset hpos
  have hcopy := toCopy_toNat offset remaining hpos
  rw [turn, logicalBlock_eq]
  simp only [hmap, pure_bind]
  rw [blockBytes_eq hdev _ (by rw [hoff, hcopy]; omega), hoff, hcopy, pure_bind, Option.map_map]
  rfl

theorem copyLoop_next (hdev : Whole dev rd.blockSize) (hpos : 0 < rd.blockSize.toNat)
    (hmap : ∀ l, mapBlock dev rd depth inode l = pure (map l)) {fuel : Nat} {written : List Byte}
    (hrem : remaining ≠ 0) {b : List Byte}
    (hb : fileBlock dev rd map (offset.toNat / rd.blockSize.toNat) = some b) :
    copyLoop dev rd inode depth (fuel + 1) offset remaining written =
      copyLoop dev rd inode depth fuel (offset + chunkSize rd offset remaining)
        (remaining - chunkSize rd offset remaining) (written ++ chunk rd offset remaining b) := by
  rw [copyLoop_turn _ _ _ _ _ _ hrem, turn_eq _ _ hdev hpos hmap, hb]
  rfl

theorem copyLoop_fails (hdev : Whole dev rd.blockSize) (hpos : 0 < rd.blockSize.toNat)
    (hmap : ∀ l, mapBlock dev rd depth inode l = pure (map l)) {fuel : Nat} {written : List Byte}
    (hrem : remaining ≠ 0)
    (hb : fileBlock dev rd map (offset.toNat / rd.blockSize.toNat) = none) :
    copyLoop dev rd inode depth (fuel + 1) offset remaining written = pure (false, written) := by
  rw [copyLoop_turn _ _ _ _ _ _ hrem, turn_eq _ _ hdev hpos hmap, hb]
  rfl

theorem nextTurn_eq (hdev : Whole dev rd.blockSize) (hpos : 0 < rd.blockSize.toNat)
    (hmap : ∀ l, mapBlock dev rd depth inode l = pure (map l)) (hrem : remaining ≠ 0) :
    nextTurn dev rd inode depth (offset, remaining) =
      (fileBlock dev rd map (offset.toNat / rd.blockSize.toNat)).map fun _ =>
        (offset + chunkSize rd offset remaining, remaining - chunkSize rd offset remaining) := by
  rw [nextTurn, if_neg hrem, turn_eq _ _ hdev hpos hmap]
  cases fileBlock dev rd map (offset.toNat / rd.blockSize.toNat) <;> rfl

/-- What a loop still has before it: a count that fits, or a block that cannot be read
no later than where the low half of the count is used up. -/
def Fits (dev : Device Id) (rd : Ext4Reader) (map : UInt32 → Option UInt64)
    (s : UInt64 × UInt64) : Prop :=
  s.2.toNat < 2 ^ 32 ∨
    ∃ i ≤ s.2.toNat % 2 ^ 32, IsUnreadable dev rd map (s.1 + UInt64.ofNat i).toNat

theorem fits_next (hdev : Whole dev rd.blockSize) (hacc : Accepted rd.blockSize)
    (hq : 0 < remaining.toNat % 2 ^ 32) {b : List Byte}
    (hb : fileBlock dev rd map (offset.toNat / rd.blockSize.toNat) = some b) :
    Fits dev rd map (offset + chunkSize rd offset remaining,
      remaining - chunkSize rd offset remaining) ↔ Fits dev rd map (offset, remaining) := by
  have hpos := (Accepted.bounds hacc).1
  have hsize := chunkSize_toNat offset remaining hpos
  have hlt := Nat.mod_lt offset.toNat hpos
  obtain ⟨_, _, hle, hleft⟩ := turn_moves offset hacc hq
  rw [Fits, Fits]
  dsimp only
  apply or_congr (by omega)
  constructor
  · rintro ⟨i, hi, hbad⟩
    refine ⟨(chunkSize rd offset remaining).toNat + i, by omega, ?_⟩
    rw [← offset_split (Nat.le_add_right _ i), Nat.add_sub_cancel_left]
    exact hbad
  · rintro ⟨i, hi, hbad⟩
    have hge : (chunkSize rd offset remaining).toNat ≤ i := by
      by_contra hlt
      rw [← fileBlock_eq_none hdev, within_block hacc (by omega), hb] at hbad
      cases hbad
    refine ⟨i - (chunkSize rd offset remaining).toNat, by omega, ?_⟩
    rw [offset_split hge]
    exact hbad

/-- Where the low half of the count is used up, a loop that fits ends: it has nothing
left to copy, or its block cannot be read. -/
theorem fits_end (hdev : Whole dev rd.blockSize) (hq : remaining.toNat % 2 ^ 32 = 0)
    (hrem : remaining ≠ 0) (h : Fits dev rd map (offset, remaining)) :
    fileBlock dev rd map (offset.toNat / rd.blockSize.toNat) = none := by
  have hne : remaining.toNat ≠ 0 := fun h0 => hrem (UInt64.toNat_inj.mp h0)
  rw [fileBlock_eq_none hdev]
  rcases h with h | ⟨i, hi, hbad⟩
  · dsimp only at h
    omega
  · dsimp only at hi hbad
    obtain rfl : i = 0 := by omega
    rwa [offset_zero] at hbad

theorem fits_moves (hdev : Whole dev rd.blockSize) (hrem : remaining ≠ 0)
    (hfits : Fits dev rd map (offset, remaining)) {b : List Byte}
    (hb : fileBlock dev rd map (offset.toNat / rd.blockSize.toNat) = some b) :
    0 < remaining.toNat % 2 ^ 32 := by
  refine Nat.pos_of_ne_zero fun hq => ?_
  rw [fits_end hdev hq hrem hfits] at hb
  cases hb

theorem copyLoop_returns_within (hdev : Whole dev rd.blockSize) (hacc : Accepted rd.blockSize)
    (hmap : ∀ l, mapBlock dev rd depth inode l = pure (map l)) {fuel : Nat}
    (hfuel : turnsLeft rd offset remaining < fuel) (hfits : Fits dev rd map (offset, remaining))
    (written : List Byte) :
    ∃ r, copyLoop dev rd inode depth fuel offset remaining written = pure r := by
  have hpos := (Accepted.bounds hacc).1
  induction fuel generalizing offset remaining written with
  | zero => exact absurd hfuel (Nat.not_lt_zero _)
  | succ fuel ih =>
      by_cases hrem : remaining = 0
      · subst hrem
        exact ⟨_, rfl⟩
      · cases hb : fileBlock dev rd map (offset.toNat / rd.blockSize.toNat) with
        | none => exact ⟨_, copyLoop_fails hdev hpos hmap hrem hb⟩
        | some b =>
            have hq := fits_moves hdev hrem hfits hb
            have hnext := turnsLeft_next offset hacc hq
            rw [copyLoop_next hdev hpos hmap hrem hb]
            exact ih (by omega) ((fits_next hdev hacc hq hb).mpr hfits) _

theorem fits_along (hdev : Whole dev rd.blockSize) (hacc : Accepted rd.blockSize)
    (hmap : ∀ l, mapBlock dev rd depth inode l = pure (map l)) {s : UInt64 × UInt64}
    (hfits : Fits dev rd map s) :
    Along (nextTurn dev rd inode depth) (Fits dev rd map) (some s) := by
  have hpos := (Accepted.bounds hacc).1
  refine along_of_invariant ?_ hfits
  rintro ⟨offset, remaining⟩ s' hfits hnext
  by_cases hrem : remaining = 0
  · rw [nextTurn, if_pos hrem] at hnext
    cases hnext
  · rw [nextTurn_eq hdev hpos hmap hrem] at hnext
    obtain ⟨b, hb, rfl⟩ := Option.map_eq_some_iff.mp hnext
    exact (fits_next hdev hacc (fits_moves hdev hrem hfits hb) hb).mpr hfits

/-- A loop that does not fit comes to a block that it can read with 2^32 bytes or more
to copy, a multiple of 2^32. -/
theorem stuck_of_not_fits (hdev : Whole dev rd.blockSize) (hacc : Accepted rd.blockSize)
    (hmap : ∀ l, mapBlock dev rd depth inode l = pure (map l))
    (hfits : ¬Fits dev rd map (offset, remaining)) :
    ∃ n s b, walk (nextTurn dev rd inode depth) n (some (offset, remaining)) = some s ∧ s.2 ≠ 0 ∧
      s.2.toNat % 2 ^ 32 = 0 ∧
      fileBlock dev rd map (s.1.toNat / rd.blockSize.toNat) = some b := by
  have hpos := (Accepted.bounds hacc).1
  induction hturns : turnsLeft rd offset remaining using Nat.strong_induction_on
    generalizing offset remaining with
  | _ turns ih =>
      have hrem : remaining ≠ 0 := by
        rintro rfl
        exact hfits (Or.inl (Nat.two_pow_pos 32))
      cases hb : fileBlock dev rd map (offset.toNat / rd.blockSize.toNat) with
      | none =>
          refine absurd (Or.inr ⟨0, Nat.zero_le _, ?_⟩) hfits
          rw [offset_zero]
          exact (fileBlock_eq_none hdev).mp hb
      | some b =>
          rcases Nat.eq_zero_or_pos (remaining.toNat % 2 ^ 32) with hq | hq
          · exact ⟨0, _, b, rfl, hrem, hq, hb⟩
          · obtain ⟨n, s, b', hwalk, hs⟩ := ih _ (hturns ▸ turnsLeft_next offset hacc hq)
              (mt (fits_next hdev hacc hq hb).mp hfits) rfl
            refine ⟨n + 1, s, b', ?_, hs⟩
            rw [walk_succ, Option.bind_some, nextTurn_eq hdev hpos hmap hrem, hb]
            exact hwalk

theorem copyLoop_stuck (hdev : Whole dev rd.blockSize) (hacc : Accepted rd.blockSize)
    (hmap : ∀ l, mapBlock dev rd depth inode l = pure (map l)) (hrem : remaining ≠ 0)
    (hq : remaining.toNat % 2 ^ 32 = 0) {b : List Byte}
    (hb : fileBlock dev rd map (offset.toNat / rd.blockSize.toNat) = some b) (fuel : Nat)
    (written : List Byte) :
    copyLoop dev rd inode depth fuel offset remaining written = throw .outOfFuel := by
  have hpos := (Accepted.bounds hacc).1
  have hsize := chunkSize_toNat offset remaining hpos
  have hzero : chunkSize rd offset remaining = 0 := UInt64.toNat_inj.mp (by
    rw [hsize, hq, Nat.zero_min]
    rfl)
  induction fuel generalizing written with
  | zero => rfl
  | succ fuel ih =>
      rw [copyLoop_next hdev hpos hmap hrem hb, hzero, UInt64.add_zero, UInt64.sub_zero]
      exact ih _

end Loop

theorem clippedSize_le {inode : Ext4Inode} {offset size : UInt64} (hlt : offset < fileSize inode) :
    (clippedSize inode offset size).toNat ≤ size.toNat := by
  have hltNat := UInt64.lt_iff_toNat_lt.mp hlt
  rw [clippedSize]
  split
  · rename_i h
    have hend := UInt64.lt_iff_toNat_lt.mp h
    rw [UInt64.toNat_add] at hend
    have := size.toNat_lt
    rw [UInt64.toNat_sub_of_le _ _ (UInt64.le_iff_toNat_le.mpr hltNat.le)]
    omega
  · exact le_rfl

theorem turnsLeft_lt_bound {rd : Ext4Reader} (hpos : 0 < rd.blockSize.toNat)
    {offset remaining size : UInt64} (hle : remaining.toNat ≤ size.toNat) :
    turnsLeft rd offset remaining < turnBound rd size + 1 := by
  have hlt := Nat.mod_lt offset.toNat hpos
  have hmod := Nat.mod_le remaining.toNat (2 ^ 32)
  rw [turnsLeft, turnBound]
  split
  · exact Nat.succ_pos _
  · have hdiv : (offset.toNat % rd.blockSize.toNat + remaining.toNat % 2 ^ 32 - 1) /
        rd.blockSize.toNat ≤ (size.toNat + rd.blockSize.toNat - 1) / rd.blockSize.toNat :=
      Nat.div_le_div_right (by omega)
    omega

section Depth

variable {dev : Device Id} {rd : Ext4Reader} {inode : Ext4Inode} {map : UInt32 → Option UInt64}
  {depth : Nat} {offset size : UInt64} (hdev : Whole dev rd.blockSize) (hacc : Accepted rd.blockSize)
  (hmap : ∀ l, mapBlock dev rd depth inode l = pure (map l))
include hdev hacc hmap

theorem fits_of_progress (h : Progress dev rd inode depth offset size) :
    Fits dev rd map (offset, clippedSize inode offset size) := by
  have hpos := (Accepted.bounds hacc).1
  by_contra hfits
  obtain ⟨n, s, b, hwalk, hrem, hq, hb⟩ := stuck_of_not_fits hdev hacc hmap hfits
  have hturn := turn_eq s.1 s.2 hdev hpos hmap
  rw [hb] at hturn
  obtain ⟨hone, _⟩ := h.turns n s hwalk hrem _ _ hturn
  rw [chunk, hq, Nat.zero_min, List.take_zero] at hone
  exact absurd hone (by decide)

theorem progress_of_fits (hlt : offset < fileSize inode)
    (hfits : Fits dev rd map (offset, clippedSize inode offset size)) :
    Progress dev rd inode depth offset size := by
  have hpos := (Accepted.bounds hacc).1
  constructor
  · intro n s hwalk hrem bytes s' hturn
    have hs := fits_along hdev hacc hmap hfits n s hwalk
    rw [turn_eq _ _ hdev hpos hmap] at hturn
    cases hb : fileBlock dev rd map (s.1.toNat / rd.blockSize.toNat) with
    | none =>
        rw [hb] at hturn
        cases pure_injective hturn
    | some b =>
        have hq := fits_moves hdev hrem hs hb
        obtain ⟨hone, hblock, hle, hleft⟩ := turn_moves s.1 hacc hq
        have hmod := Nat.mod_le s.2.toNat (2 ^ 32)
        rw [hb] at hturn
        cases pure_injective hturn
        rw [(chunk_segment hdev hpos hb).2, UInt64.lt_iff_toNat_lt, hleft]
        exact ⟨hone, hblock, by omega⟩
  · exact copyLoop_returns_within hdev hacc hmap (turnsLeft_lt_bound hpos (clippedSize_le hlt)) hfits []

end Depth

/-- The loop of a read makes progress, and ends within the turns that its size asks for,
exactly when its count fits into the 32 bits that the step is computed in, or an
unreadable block ends it before the low half of the count is used up. -/
theorem makesProgress_iff (disk : Disk) (w : BlockDevice) (rd : Ext4Reader)
    (hmounted : rd.mounted = true) (inode : Ext4Inode) (map : UInt32 → Option UInt64)
    (hmap : ∀ logicalBlock, ∃ depth,
      mapBlock (disk.device w) rd depth inode logicalBlock = pure (map logicalBlock))
    (offset size : UInt64) :
    MakesProgress (disk.device w) rd inode offset size ↔
      CountFits (disk.device w) rd inode map offset size := by
  have hacc := (rd.geometry hmounted).1
  have hdev := disk_whole disk w hacc
  obtain ⟨bound, hbound⟩ := mapBlock_bounded (C := fun _ => True) fun l _ => hmap l
  have hmaps : ∀ depth ≥ bound, ∀ l, mapBlock (disk.device w) rd depth inode l = pure (map l) :=
    fun depth hdepth l => hbound depth hdepth l trivial
  apply forall_congr'
  intro hlt
  constructor
  · rintro ⟨bound', hprogress⟩
    have hdepth := hprogress (max bound bound') (le_max_right _ _)
    exact fits_of_progress hdev hacc (hmaps _ (le_max_left _ _)) hdepth
  · intro hfits
    exact ⟨bound, fun depth hdepth => progress_of_fits hdev hacc (hmaps depth hdepth) hlt hfits⟩

def hugeDisk : Disk :=
  .ofPieces 16384 [(2056, le32Bytes 5), (6400, le16Bytes 0x8180), (6508, le32Bytes 1)]

def hugeDevice : Device Id := hugeDisk.device wholeDevice

def hugeInode : Ext4Inode :=
  (result (readInode hugeDevice (plainReader 16) 11)).join.getD (Packed.zero 160)

theorem hugeInode_read : readInode hugeDevice (plainReader 16) 11 = pure (some hugeInode) :=
  eq_pure_getD (by decide +kernel) _

theorem hugeInode_map (depth : Nat) (logicalBlock : UInt32) :
    mapBlock hugeDevice (plainReader 16) depth hugeInode logicalBlock =
      pure (mapOf hugeDevice (plainReader 16) hugeInode 0 logicalBlock) :=
  mapBlock_pointers (disk_whole hugeDisk wholeDevice (plainReader_accepted 16))
    (plainReader_accepted 16) (by decide +kernel) depth logicalBlock

theorem makesProgress_iff_huge :
    MakesProgress hugeDevice (plainReader 16) hugeInode 0 0x100000000 ↔
      CountFits hugeDevice (plainReader 16) hugeInode (mapOf hugeDevice (plainReader 16) hugeInode 0)
        0 0x100000000 :=
  makesProgress_iff hugeDisk wholeDevice (plainReader 16) rfl hugeInode _
    (fun l => ⟨0, hugeInode_map 0 l⟩) 0 0x100000000

/-- To show the whole file, as `cmd_cat` does, takes for ever. -/
theorem huge_file_never_read : fileSize hugeInode = 0x100000000 ∧
    (∀ fuel buffer, readFileData hugeDevice (plainReader 16) fuel 11 0 (some buffer) 0x100000000 =
      throw .outOfFuel) ∧
    ¬MakesProgress hugeDevice (plainReader 16) hugeInode 0 0x100000000 := by
  have hdev : Whole hugeDevice (plainReader 16).blockSize :=
    disk_whole hugeDisk wholeDevice (plainReader_accepted 16)
  have hpos := (Accepted.bounds (plainReader_accepted 16)).1
  have hb : fileBlock hugeDevice (plainReader 16) (mapOf hugeDevice (plainReader 16) hugeInode 0)
      ((0 : UInt64).toNat / (plainReader 16).blockSize.toNat) = some (List.replicate 1024 0) := by
    decide +kernel
  have hclip : clippedSize hugeInode 0 0x100000000 = 0x100000000 := by decide +kernel
  refine ⟨by decide +kernel, fun fuel buffer => ?_, fun hprogress => ?_⟩
  · have hstuck : copyLoop hugeDevice (plainReader 16) hugeInode fuel fuel 0 0x100000000 [] =
        throw .outOfFuel :=
      copyLoop_stuck hdev (plainReader_accepted 16) (hugeInode_map fuel) (by decide) (by decide) hb fuel []
    rw [readFileData_eq rfl hugeInode_read fuel 0 buffer (by decide), if_neg (by decide +kernel), hclip,
      hstuck]
    rfl
  · obtain ⟨bound, hbound⟩ := hprogress (by decide +kernel)
    have hturns := (hbound bound le_rfl).turns 0 _ rfl
    rw [hclip] at hturns
    have hturn := turn_eq 0 0x100000000 hdev hpos (hugeInode_map bound)
    rw [hb] at hturn
    obtain ⟨_, _, hlt⟩ := hturns (by decide) _ _ hturn
    exact absurd hlt (by decide)

end Linux2Win.CopyTurns
