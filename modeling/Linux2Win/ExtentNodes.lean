import Linux2Win.ExtentTree

namespace Linux2Win.ExtentNodes

open Bytes Ext4Types Reader BlockMap Devices ExtentTree

theorem scanExtents_error {node : List Byte} {logicalBlock : UInt32} {i n : Nat} {f : Fault}
    (h : scanExtents node logicalBlock i n = .error f) : f = .outOfBounds := by
  induction n generalizing i with
  | zero => cases h
  | succ n ih =>
      rw [scanExtents] at h
      split at h
      · cases h
        rfl
      · dsimp only at h
        split at h
        · cases h
        · exact ih h

theorem scanIndex_error {node : List Byte} {logicalBlock : UInt32} {i n : Nat}
    {chosen : Option Ext4ExtentIdx} {f : Fault}
    (h : scanIndex node logicalBlock i n chosen = .error f) : f = .outOfBounds := by
  induction n generalizing i chosen with
  | zero => cases h
  | succ n ih =>
      rw [scanIndex] at h
      split at h
      · cases h
        rfl
      · dsimp only at h
        split at h
        · exact ih h
        · cases h

theorem searchNode_error {node : List Byte} {logicalBlock : UInt32} {f : Fault}
    (h : searchNode node logicalBlock = .error f) : f = .outOfBounds := by
  rw [searchNode] at h
  split at h
  · cases h
  · split at h
    · cases hs : scanExtents node logicalBlock 0 (extentHeader node).ehEntries.toNat with
      | error f' =>
          rw [hs] at h
          cases h
          exact scanExtents_error hs
      | ok r =>
          rw [hs] at h
          cases h
    · cases hs : scanIndex node logicalBlock 0 (extentHeader node).ehEntries.toNat none with
      | error f' =>
          rw [hs] at h
          cases h
          exact scanIndex_error hs
      | ok r =>
          rw [hs] at h
          cases h

def entryCapacity (node : List Byte) : Nat := (node.length - 12) / 12

def stops (logicalBlock : UInt32) (node : List Byte) (i : Nat) : Bool :=
  if (extentHeader node).ehDepth == 0 then (extentAt node i).covers logicalBlock
  else logicalBlock < (extentIdxAt node i).eiBlock

/-- The count of a node is within its room, or an entry inside of it stops the loop. -/
def Contained (logicalBlock : UInt32) (node : List Byte) : Prop :=
  (extentHeader node).ehMagic = extentMagic →
    entries node ≤ entryCapacity node ∨ ∃ i < entryCapacity node, stops logicalBlock node i = true

section Scan

def StaysWithin (room : Nat) (stop : Nat → Bool) (i n : Nat) : Prop :=
  i + n ≤ room ∨ ∃ j, i ≤ j ∧ j < room ∧ stop j = true

theorem staysWithin_succ {room : Nat} {stop : Nat → Bool} {i n : Nat} :
    StaysWithin room stop i (n + 1) ↔
      i < room ∧ (stop i = true ∨ StaysWithin room stop (i + 1) n) := by
  constructor
  · rintro (h | ⟨j, hij, hj, hstop⟩)
    · exact ⟨by omega, Or.inr (Or.inl (by omega))⟩
    · refine ⟨by omega, ?_⟩
      rcases Nat.eq_or_lt_of_le hij with rfl | hlt
      · exact Or.inl hstop
      · exact Or.inr (Or.inr ⟨j, hlt, hj, hstop⟩)
  · rintro ⟨hi, hstop | h | ⟨j, hij, hj, hstop⟩⟩
    · exact Or.inr ⟨i, le_rfl, hi, hstop⟩
    · exact Or.inl (by omega)
    · exact Or.inr ⟨j, by omega, hj, hstop⟩

variable {node : List Byte} {logicalBlock : UInt32} {i : Nat}

theorem inside_iff : ¬node.length < 12 + 12 * i + 12 ↔ i < entryCapacity node := by
  rw [entryCapacity]
  omega

variable (logicalBlock) in
theorem scanExtents_within (n : Nat) (hi : i ≤ entryCapacity node) :
    scanExtents node logicalBlock i n ≠ .error .outOfBounds ↔
      StaysWithin (entryCapacity node) (fun j => (extentAt node j).covers logicalBlock) i n := by
  induction n generalizing i with
  | zero => exact iff_of_true (by intro h; cases h) (Or.inl hi)
  | succ n ih =>
      rw [scanExtents, staysWithin_succ]
      by_cases hin : i < entryCapacity node
      · rw [if_neg (inside_iff.mpr hin)]
        cases hc : (extentAt node i).covers logicalBlock with
        | true => exact iff_of_true (by simp [hc]) ⟨hin, Or.inl rfl⟩
        | false => simpa [hc, hin] using ih hin
      · rw [if_pos (not_not.mp (mt inside_iff.mp hin))]
        exact iff_of_false (fun h => h rfl) fun h => hin h.1

variable (logicalBlock) in
theorem scanIndex_within (n : Nat) (chosen : Option Ext4ExtentIdx)
    (hi : i ≤ entryCapacity node) :
    scanIndex node logicalBlock i n chosen ≠ .error .outOfBounds ↔
      StaysWithin (entryCapacity node) (fun j => logicalBlock < (extentIdxAt node j).eiBlock) i n := by
  induction n generalizing i chosen with
  | zero => exact iff_of_true (by intro h; cases h) (Or.inl hi)
  | succ n ih =>
      rw [scanIndex, staysWithin_succ]
      by_cases hin : i < entryCapacity node
      · rw [if_neg (inside_iff.mpr hin)]
        by_cases hge : logicalBlock ≥ (extentIdxAt node i).eiBlock
        · simpa [hge, hin, UInt32.not_lt.mpr hge] using ih (some (extentIdxAt node i)) hin
        · exact iff_of_true (by simp [hge]) ⟨hin, Or.inl (decide_eq_true (UInt32.not_le.mp hge))⟩
      · rw [if_pos (not_not.mp (mt inside_iff.mp hin))]
        exact iff_of_false (fun h => h rfl) fun h => hin h.1

theorem map_error_iff {α β : Type} (f : α → β) (x : Except Fault α) (e : Fault) :
    x.map f = .error e ↔ x = .error e := by
  cases x <;> simp [Except.map]

theorem searchNode_contained :
    searchNode node logicalBlock ≠ .error .outOfBounds ↔ Contained logicalBlock node := by
  rw [searchNode, Contained]
  by_cases hmagic : (extentHeader node).ehMagic = extentMagic
  · simp only [hmagic, bne_self_eq_false, Bool.false_eq_true, if_false, forall_const, entries, stops]
    cases (extentHeader node).ehDepth == 0 with
    | true =>
        simpa [map_error_iff, StaysWithin] using
          scanExtents_within logicalBlock (extentHeader node).ehEntries.toNat
            (Nat.zero_le _)
    | false =>
        simpa [map_error_iff, StaysWithin] using
          scanIndex_within logicalBlock (extentHeader node).ehEntries.toNat none
            (Nat.zero_le _)
  · simp [hmagic]

end Scan

end Linux2Win.ExtentNodes
