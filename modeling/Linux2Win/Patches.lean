import Mathlib.Data.List.Basic

namespace Linux2Win.Patches

variable {α : Type}

def patch (file : List α) (write : Nat × List α) : List α :=
  file.take write.1 ++ (write.2 ++ file.drop (write.1 + write.2.length))

def Agrees (target : List α) (write : Nat × List α) : Prop :=
  ∃ count, write.2 = (target.drop write.1).take count

def Covers (write : Nat × List α) (pos : Nat) : Prop := write.1 ≤ pos ∧ pos < write.1 + write.2.length

variable {target file : List α} {write : Nat × List α} {pos : Nat}

theorem Agrees.getElem? (h : Agrees target write) (hcovers : Covers write pos) :
    write.2[pos - write.1]? = target[pos]? := by
  obtain ⟨count, hwrite⟩ := h
  obtain ⟨hle, hlt⟩ := hcovers
  have hcount : pos - write.1 < count := by
    rw [hwrite, List.length_take] at hlt
    omega
  rw [hwrite, List.getElem?_take_of_lt hcount, List.getElem?_drop, Nat.add_sub_cancel' hle]

theorem Agrees.length (h : Agrees target write) (hlen : file.length = target.length) :
    (patch file write).length = target.length := by
  obtain ⟨count, hwrite⟩ := h
  have hle : write.2.length ≤ target.length - write.1 := by
    rw [hwrite, List.length_take, List.length_drop]
    exact Nat.min_le_right _ _
  rw [patch, List.length_append, List.length_append, List.length_take, List.length_drop, hlen]
  omega

theorem patch_getElem? (h : Agrees target write) (hlen : file.length = target.length) (pos : Nat) :
    (Covers write pos → (patch file write)[pos]? = target[pos]?) ∧
      (¬Covers write pos → (patch file write)[pos]? = file[pos]?) := by
  rcases Nat.lt_or_ge pos write.1 with hlt | hge
  · refine ⟨fun hcovers => absurd hcovers.1 (Nat.not_le.mpr hlt), fun _ => ?_⟩
    by_cases hpos : pos < (file.take write.1).length
    · rw [patch, List.getElem?_append_left hpos, List.getElem?_take_of_lt hlt]
    · rw [List.getElem?_eq_none, List.getElem?_eq_none]
      · rw [List.length_take] at hpos
        omega
      · rw [h.length hlen]
        rw [List.length_take] at hpos
        omega
  · by_cases hfile : write.1 ≤ file.length
    · have htake : (file.take write.1).length = write.1 := by
        rw [List.length_take]
        omega
      rw [patch, List.getElem?_append_right (by omega), htake]
      constructor
      · intro hcovers
        rw [List.getElem?_append_left (by have := hcovers.2; omega), h.getElem? hcovers]
      · intro hcovers
        have hend : write.1 + write.2.length ≤ pos := Nat.le_of_not_lt fun hlt => hcovers ⟨hge, hlt⟩
        rw [List.getElem?_append_right (by omega), List.getElem?_drop]
        congr 1
        omega
    · have hnone : (patch file write)[pos]? = none := by
        rw [List.getElem?_eq_none]
        rw [h.length hlen]
        omega
      rw [hnone]
      exact ⟨fun _ => (List.getElem?_eq_none (by omega)).symm,
        fun _ => (List.getElem?_eq_none (by omega)).symm⟩

theorem foldl_getElem? {writes : List (Nat × List α)} (h : ∀ write ∈ writes, Agrees target write)
    (hlen : file.length = target.length) (hsettled : file[pos]? = target[pos]? ∨
      ∃ write ∈ writes, Covers write pos) : (writes.foldl patch file)[pos]? = target[pos]? := by
  induction writes generalizing file with
  | nil =>
      rcases hsettled with hsettled | ⟨_, hmem, _⟩
      · exact hsettled
      · cases hmem
  | cons write writes ih =>
      have hagrees := h write List.mem_cons_self
      obtain ⟨hcovered, hother⟩ := patch_getElem? hagrees hlen pos
      refine ih (fun w hw => h w (List.mem_cons_of_mem _ hw)) (hagrees.length hlen) ?_
      by_cases hcovers : Covers write pos
      · exact Or.inl (hcovered hcovers)
      · rcases hsettled with hsettled | ⟨w, hmem, hw⟩
        · exact Or.inl ((hother hcovers).trans hsettled)
        · rcases List.mem_cons.mp hmem with rfl | hmem
          · exact absurd hw hcovers
          · exact Or.inr ⟨w, hmem, hw⟩

/-- Writes in any order, and overlapping ones, make up the target once they cover it. -/
theorem foldl_patch {writes : List (Nat × List α)} (h : ∀ write ∈ writes, Agrees target write)
    (hlen : file.length = target.length)
    (hcover : ∀ pos < target.length, ∃ write ∈ writes, Covers write pos) :
    writes.foldl patch file = target := by
  refine List.ext_getElem? fun pos => foldl_getElem? h hlen ?_
  rcases Nat.lt_or_ge pos target.length with hlt | hge
  · exact Or.inr (hcover pos hlt)
  · rw [List.getElem?_eq_none hge, List.getElem?_eq_none (hlen ▸ hge)]
    exact Or.inl rfl

end Linux2Win.Patches
