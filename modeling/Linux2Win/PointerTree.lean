import Linux2Win.BlockMap
import Linux2Win.Programs

namespace Linux2Win.PointerTree

open Bytes Devices Ext4Types Reader BlockMap Programs

/-- What a block map says of a logical block. A broken map has a block on the way
that cannot be read or is no node. -/
inductive Lookup
  | entry (physBlock : UInt64)
  | absent
  | broken
  deriving DecidableEq, Repr

def Lookup.answer : Lookup → Option UInt64
  | .entry physBlock => some physBlock
  | .absent | .broken => none

/-- The slot of the inode that a logical block goes through, and the digits of the
block in the pointer blocks below it, for `p` pointers a block. -/
def treePath (p n : Nat) : Option (Nat × List Nat) :=
  if n < 12 then some (n, [])
  else if n < 12 + p then some (12, [n - 12])
  else if n < 12 + p + p * p then some (13, [(n - 12 - p) / p, (n - 12 - p) % p])
  else if n < 12 + p + p * p + p * p * p then
    let r := n - 12 - p - p * p
    some (14, [r / (p * p), r / p % p, r % p])
  else none

def pointersPerBlock (rd : Ext4Reader) : Nat := rd.blockSize.toNat / 4

section Tree

variable {m : Type → Type} [Monad m] (dev : Device m) (rd : Ext4Reader)

def followPointers : UInt32 → List Nat → ExceptT Fault m Lookup
  | pointer, [] => pure (if pointer == 0 then .absent else .entry pointer.toUInt64)
  | pointer, i :: path => do
      if pointer == 0 then return .absent
      match ← readBlock dev pointer.toUInt64 rd.blockSize with
      | none => return .broken
      | some block => followPointers (pointerAt block i) path

/-- The block map of ext2: twelve direct pointers and three trees of pointer blocks. -/
def pointerTree (inode : Ext4Inode) (logicalBlock : UInt32) : ExceptT Fault m Lookup :=
  match treePath (pointersPerBlock rd) logicalBlock.toNat with
  | some (slot, path) => followPointers dev rd (pointerAt inode.iBlock slot) path
  | none => pure .absent

variable {dev rd} [LawfulMonad m]

theorem present_eq (pointer : UInt32) :
    present pointer = (if pointer == 0 then Lookup.absent else .entry pointer.toUInt64).answer := by
  rw [present]
  split <;> rfl

theorem follow_one (pointer : UInt32) (i : UInt32) :
    (do return (← readPointer dev rd pointer i).bind present : ExceptT Fault m (Option UInt64)) =
      Lookup.answer <$> followPointers dev rd pointer [i.toNat] := by
  rw [readPointer, followPointers]
  cases pointer == 0 with
  | true => simp [Lookup.answer]
  | false =>
      simp only [Bool.false_eq_true, if_false, bind_assoc, pure_bind, map_eq_pure_bind]
      congr 1
      funext block
      cases block with
      | none => simp [Lookup.answer]
      | some block => simp [followPointers, present_eq]

theorem follow_two (pointer i j : UInt32) :
    (do match ← readPointer dev rd pointer i with
        | none => return none
        | some indBlock => return (← readPointer dev rd indBlock j).bind present :
      ExceptT Fault m (Option UInt64)) =
      Lookup.answer <$> followPointers dev rd pointer [i.toNat, j.toNat] := by
  rw [readPointer, followPointers]
  cases pointer == 0 with
  | true => simp [Lookup.answer]
  | false =>
      simp only [Bool.false_eq_true, if_false, bind_assoc, pure_bind, map_bind]
      congr 1
      funext block
      cases block with
      | none => simp [Lookup.answer]
      | some block => exact follow_one (pointerAt block i.toNat) j

end Tree

section Ranges

theorem pointers_toNat (rd : Ext4Reader) : (rd.blockSize / 4).toNat = pointersPerBlock rd := by
  simp [pointersPerBlock]

theorem pointers_bounds {rd : Ext4Reader} (h : Accepted rd.blockSize) :
    0 < pointersPerBlock rd ∧ pointersPerBlock rd ≤ 16384 := by
  obtain ⟨k, hk, hbs⟩ := h
  have hpos := Nat.two_pow_pos k
  have hle : 2 ^ k ≤ 2 ^ 6 := Nat.pow_le_pow_right (by decide) hk
  rw [pointersPerBlock, hbs]
  omega

theorem pointersSq_toNat {rd : Ext4Reader} (h : Accepted rd.blockSize) :
    (rd.blockSize / 4 * (rd.blockSize / 4)).toNat =
      pointersPerBlock rd * pointersPerBlock rd := by
  have hle := (pointers_bounds h).2
  have hsq := Nat.mul_le_mul hle hle
  rw [UInt32.toNat_mul, pointers_toNat, Nat.mod_eq_of_lt (by omega)]

theorem sub_toNat {a b : UInt32} (h : ¬a < b) : (a - b).toNat = a.toNat - b.toNat :=
  UInt32.toNat_sub_of_le _ _ (UInt32.not_lt.mp h)

variable {m : Type → Type} [Monad m] (dev : Device m) {rd : Ext4Reader} (inode : Ext4Inode)
  {logicalBlock : UInt32}

theorem readIndirectBlock_direct (h : logicalBlock.toNat < 12) :
    readIndirectBlock dev rd inode logicalBlock =
      pure (present (pointerAt inode.iBlock logicalBlock.toNat)) := by
  have h12 : logicalBlock < 12 := UInt32.lt_iff_toNat_lt.mpr h
  rw [readIndirectBlock, if_pos h12]

theorem single_iff (h : ¬logicalBlock < 12) : logicalBlock - 12 < rd.blockSize / 4 ↔
    logicalBlock.toNat < 12 + pointersPerBlock rd := by
  have h12 : 12 ≤ logicalBlock.toNat := UInt32.le_iff_toNat_le.mp (UInt32.not_lt.mp h)
  rw [UInt32.lt_iff_toNat_lt, sub_toNat h, pointers_toNat]
  change logicalBlock.toNat - 12 < _ ↔ _
  omega

theorem double_toNat (h : ¬logicalBlock < 12) (h1 : ¬logicalBlock - 12 < rd.blockSize / 4) :
    (logicalBlock - 12 - rd.blockSize / 4).toNat = logicalBlock.toNat - 12 - pointersPerBlock rd := by
  rw [sub_toNat h1, sub_toNat h, pointers_toNat]
  rfl

theorem double_iff (hacc : Accepted rd.blockSize) (h : ¬logicalBlock < 12)
    (h1 : ¬logicalBlock - 12 < rd.blockSize / 4) :
    logicalBlock - 12 - rd.blockSize / 4 < rd.blockSize / 4 * (rd.blockSize / 4) ↔
      logicalBlock.toNat <
        12 + pointersPerBlock rd + pointersPerBlock rd * pointersPerBlock rd := by
  have hge : ¬logicalBlock.toNat < 12 + pointersPerBlock rd := fun hlt => h1 ((single_iff h).mpr hlt)
  rw [UInt32.lt_iff_toNat_lt, double_toNat h h1, pointersSq_toNat hacc]
  omega

theorem readIndirectBlock_single (h : 12 ≤ logicalBlock.toNat)
    (h1 : logicalBlock.toNat < 12 + pointersPerBlock rd) :
    ∃ i : UInt32, i.toNat = logicalBlock.toNat - 12 ∧
      readIndirectBlock dev rd inode logicalBlock =
        do return (← readPointer dev rd (pointerAt inode.iBlock 12) i).bind present := by
  have h12 : ¬logicalBlock < 12 := UInt32.not_lt.mpr (UInt32.le_iff_toNat_le.mpr h)
  refine ⟨logicalBlock - 12, sub_toNat h12, ?_⟩
  rw [readIndirectBlock, if_neg h12]
  exact if_pos ((single_iff h12).mpr h1)

theorem readIndirectBlock_double (hacc : Accepted rd.blockSize)
    (h : 12 + pointersPerBlock rd ≤ logicalBlock.toNat)
    (h2 : logicalBlock.toNat < 12 + pointersPerBlock rd + pointersPerBlock rd * pointersPerBlock rd) :
    ∃ i j : UInt32, i.toNat = (logicalBlock.toNat - 12 - pointersPerBlock rd) / pointersPerBlock rd ∧
      j.toNat = (logicalBlock.toNat - 12 - pointersPerBlock rd) % pointersPerBlock rd ∧
      readIndirectBlock dev rd inode logicalBlock =
        do match ← readPointer dev rd (pointerAt inode.iBlock 13) i with
          | none => return none
          | some indBlock => return (← readPointer dev rd indBlock j).bind present := by
  have h12 : ¬logicalBlock < 12 := by
    rw [UInt32.lt_iff_toNat_lt]
    change ¬logicalBlock.toNat < 12
    omega
  have h1 : ¬logicalBlock - 12 < rd.blockSize / 4 := by
    rw [single_iff h12]
    omega
  refine ⟨(logicalBlock - 12 - rd.blockSize / 4) / (rd.blockSize / 4),
    (logicalBlock - 12 - rd.blockSize / 4) % (rd.blockSize / 4), ?_, ?_, ?_⟩
  · rw [UInt32.toNat_div, double_toNat h12 h1, pointers_toNat]
  · rw [UInt32.toNat_mod, double_toNat h12 h1, pointers_toNat]
  · rw [readIndirectBlock, if_neg h12]
    exact (if_neg h1).trans (if_pos ((double_iff hacc h12 h1).mpr h2))

/-- The source has no case for the blocks behind the doubly indirect ones. -/
theorem readIndirectBlock_beyond (hacc : Accepted rd.blockSize)
    (h : 12 + pointersPerBlock rd + pointersPerBlock rd * pointersPerBlock rd ≤ logicalBlock.toNat) :
    readIndirectBlock dev rd inode logicalBlock = pure none := by
  have h12 : ¬logicalBlock < 12 := by
    rw [UInt32.lt_iff_toNat_lt]
    change ¬logicalBlock.toNat < 12
    omega
  have h1 : ¬logicalBlock - 12 < rd.blockSize / 4 := by
    rw [single_iff h12]
    omega
  have h2 := (double_iff hacc h12 h1).not.mpr (Nat.not_lt.mpr h)
  rw [readIndirectBlock, if_neg h12]
  exact (if_neg h1).trans (if_neg h2)

end Ranges

theorem readIndirectBlock_eq {m : Type → Type} [Monad m] [LawfulMonad m] (dev : Device m)
    {rd : Ext4Reader} (hacc : Accepted rd.blockSize) (inode : Ext4Inode) {logicalBlock : UInt32}
    (h : logicalBlock.toNat <
      12 + pointersPerBlock rd + pointersPerBlock rd * pointersPerBlock rd) :
    readIndirectBlock dev rd inode logicalBlock =
      Lookup.answer <$> pointerTree dev rd inode logicalBlock := by
  rw [pointerTree, treePath]
  by_cases h12 : logicalBlock.toNat < 12
  · rw [readIndirectBlock_direct dev inode h12, if_pos h12]
    simp [followPointers, present_eq]
  · rw [if_neg h12]
    by_cases h1 : logicalBlock.toNat < 12 + pointersPerBlock rd
    · obtain ⟨i, hi, hread⟩ := readIndirectBlock_single dev inode (Nat.not_lt.mp h12) h1
      rw [hread, if_pos h1, ← hi]
      exact follow_one _ i
    · obtain ⟨i, j, hi, hj, hread⟩ := readIndirectBlock_double dev inode hacc (Nat.not_lt.mp h1) h
      rw [hread, if_neg h1, if_pos h, ← hi, ← hj]
      exact follow_two _ i j

def ZeroOnPath (dev : Device Id) (rd : Ext4Reader) : UInt32 → List Nat → Prop
  | pointer, [] => pointer = 0
  | pointer, i :: path => pointer = 0 ∨
      ∃ block, readBlock dev pointer.toUInt64 rd.blockSize = pure (some block) ∧
        ZeroOnPath dev rd (pointerAt block i) path

def ZeroOnTreePath (dev : Device Id) (rd : Ext4Reader) (inode : Ext4Inode) (logicalBlock : UInt32) :
    Prop :=
  ∃ slot path, treePath (pointersPerBlock rd) logicalBlock.toNat = some (slot, path) ∧
    ZeroOnPath dev rd (pointerAt inode.iBlock slot) path

theorem followPointers_absent_iff {dev : Device Id} {rd : Ext4Reader} {pointer : UInt32}
    {path : List Nat} {l : Lookup} (h : followPointers dev rd pointer path = pure l)
    (hread : l ≠ .broken) : l = .absent ↔ ZeroOnPath dev rd pointer path := by
  induction path generalizing pointer with
  | nil =>
      rw [followPointers] at h
      cases pure_injective h
      by_cases hp : pointer = 0 <;> simp [ZeroOnPath, hp]
  | cons i path ih =>
      rw [followPointers] at h
      rw [ZeroOnPath]
      by_cases hp : pointer = 0
      · simp only [hp, beq_self_eq_true, if_true] at h
        cases pure_injective h
        exact iff_of_true rfl (Or.inl hp)
      · simp only [beq_iff_eq, hp, if_false, bind_eq_pure] at h
        obtain ⟨_ | block, hblock, h⟩ := h
        · exact absurd (pure_injective h).symm hread
        · rw [ih h]
          constructor
          · exact fun hz => Or.inr ⟨block, hblock, hz⟩
          · rintro (h0 | ⟨block', hblock', hz⟩)
            · exact absurd h0 hp
            · cases pure_injective (hblock.symm.trans hblock')
              exact hz

theorem treePath_isSome {p n : Nat} (h : n < 12 + p + p * p + p * p * p) :
    ∃ slot path, treePath p n = some (slot, path) := by
  rw [treePath]
  split
  · exact ⟨_, _, rfl⟩
  · split
    · exact ⟨_, _, rfl⟩
    · split
      · exact ⟨_, _, rfl⟩
      · exact ⟨_, _, rfl⟩

/-- The mapping is that of the pointer tree exactly for the blocks that the direct,
singly and doubly indirect pointers reach, and for those that are not there. -/
theorem readIndirectBlock_iff (dev : Device Id) (rd : Ext4Reader) (hacc : Accepted rd.blockSize)
    (inode : Ext4Inode) (logicalBlock : UInt32)
    (hrange : logicalBlock.toNat < 12 + pointersPerBlock rd +
      pointersPerBlock rd * pointersPerBlock rd +
        pointersPerBlock rd * pointersPerBlock rd * pointersPerBlock rd)
    (l : Lookup) (htree : pointerTree dev rd inode logicalBlock = pure l) (hread : l ≠ .broken) :
    readIndirectBlock dev rd inode logicalBlock = pure l.answer ↔
      logicalBlock.toNat < 12 + pointersPerBlock rd + pointersPerBlock rd * pointersPerBlock rd ∨
        ZeroOnTreePath dev rd inode logicalBlock := by
  by_cases h : logicalBlock.toNat <
      12 + pointersPerBlock rd + pointersPerBlock rd * pointersPerBlock rd
  · refine iff_of_true ?_ (Or.inl h)
    rw [readIndirectBlock_eq dev hacc inode h, htree]
    rfl
  · obtain ⟨slot, path, hpath⟩ := treePath_isSome hrange
    rw [pointerTree, hpath] at htree
    rw [readIndirectBlock_beyond dev inode hacc (Nat.not_lt.mp h)]
    have habsent := followPointers_absent_iff htree hread
    have hzero : ZeroOnTreePath dev rd inode logicalBlock ↔
        ZeroOnPath dev rd (pointerAt inode.iBlock slot) path := by
      constructor
      · rintro ⟨slot', path', hpath', hz⟩
        cases hpath.symm.trans hpath'
        exact hz
      · exact fun hz => ⟨slot, path, hpath, hz⟩
    rw [hzero, ← habsent, or_iff_right h]
    cases l with
    | entry physBlock => exact iff_of_false (fun hp => nomatch pure_injective hp) nofun
    | absent => exact iff_of_true rfl rfl
    | broken => exact absurd rfl hread

def tripleDisk : Disk :=
  .ofPieces 16384
    [(10240, le32Bytes 11), (11264, le32Bytes 12), (12288, le32Bytes 13)]

def tripleInode : Ext4Inode := .ofPieces 160 [(96, le32Bytes 10)]

def tripleDevice : Device Id := tripleDisk.device wholeDevice

theorem tripleInode_tree :
    pointerTree tripleDevice (plainReader 16) tripleInode 65804 = pure (.entry 13) :=
  result_eq_some.mp (by decide +kernel)

theorem readIndirectBlock_iff_triple :
    readIndirectBlock tripleDevice (plainReader 16) tripleInode 65804 =
        pure (Lookup.entry 13).answer ↔
      (65804 : UInt32).toNat < 12 + pointersPerBlock (plainReader 16) +
          pointersPerBlock (plainReader 16) * pointersPerBlock (plainReader 16) ∨
        ZeroOnTreePath tripleDevice (plainReader 16) tripleInode 65804 :=
  readIndirectBlock_iff tripleDevice (plainReader 16) (plainReader_accepted 16) tripleInode 65804
    (by decide) (.entry 13) tripleInode_tree nofun

theorem triple_indirect_missing : usesExtents tripleInode = false ∧
    pointerTree tripleDevice (plainReader 16) tripleInode 65804 = pure (.entry 13) ∧
    readIndirectBlock tripleDevice (plainReader 16) tripleInode 65804 ≠
      pure (Lookup.entry 13).answer := by
  refine ⟨by decide +kernel, tripleInode_tree, fun h => ?_⟩
  have hge : 12 + pointersPerBlock (plainReader 16) +
      pointersPerBlock (plainReader 16) * pointersPerBlock (plainReader 16) ≤
        (65804 : UInt32).toNat := by decide
  have hbeyond := readIndirectBlock_beyond tripleDevice tripleInode (plainReader_accepted 16) hge
  exact nomatch pure_injective (hbeyond.symm.trans h)

end Linux2Win.PointerTree
