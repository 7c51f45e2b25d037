import Mathlib.Algebra.Order.Ring.Nat
import Mathlib.Data.List.Basic

namespace Linux2Win.DirPaths

variable {α : Type} [DecidableEq α] (dot : α)

/-- A component of a path, seen from the directories entered so far, the innermost
first. Two dots at the root stay there. -/
def enter (way : List (List α)) (part : List α) : List (List α) :=
  if part = [] ∨ part = [dot] then way
  else if part = [dot, dot] then way.tail
  else part :: way

def resolve (isSep : α → Bool) (path : List α) : List α × List (List α) :=
  match path.splitOnP isSep with
  | [] => ([], [])
  | drive :: parts => (drive, parts.foldl (enter dot) [])

/-- How far below a directory a way has come; none once it has left it. -/
def level (n : Nat) (part : List α) : Option Nat :=
  if part = [] ∨ part = [dot] then some n
  else if part = [dot, dot] then (if n = 0 then none else some (n - 1))
  else some (n + 1)

variable {dot} {part : List α} {parts : List (List α)} {n k : Nat}

/-- As long as a way stays below a directory, it changes nothing above it. -/
theorem enter_of_level (front : List (List α)) (h : level dot front.length part = some k) :
    ∃ front', front'.length = k ∧ ∀ base, enter dot (front ++ base) part = front' ++ base := by
  simp only [level, enter] at h ⊢
  split at h
  · rename_i hstay
    cases h
    exact ⟨front, rfl, fun base => if_pos hstay⟩
  · rename_i hmove
    split at h
    · rename_i hup
      split at h
      · cases h
      · rename_i hpos
        cases h
        cases front with
        | nil => exact absurd rfl hpos
        | cons name front => exact ⟨front, rfl, fun base => by rw [if_neg hmove, if_pos hup]; rfl⟩
    · rename_i hname
      cases h
      refine ⟨part :: front, rfl, fun base => ?_⟩
      rw [if_neg hmove, if_neg hname]
      rfl

theorem foldl_enter_of_levels (front : List (List α))
    (h : parts.foldlM (level dot) front.length = some k) : ∃ front', front'.length = k ∧
      ∀ base, parts.foldl (enter dot) (front ++ base) = front' ++ base := by
  induction parts generalizing front with
  | nil =>
      cases h
      exact ⟨front, rfl, fun _ => rfl⟩
  | cons part parts ih =>
      rw [List.foldlM_cons] at h
      obtain ⟨m, hm, h⟩ := Option.bind_eq_some_iff.mp h
      obtain ⟨front₁, hlen, hstep⟩ := enter_of_level front hm
      obtain ⟨front', hlen', hrest⟩ := ih front₁ (by rw [hlen]; exact h)
      exact ⟨front', hlen', fun base => by rw [List.foldl_cons, hstep, hrest]⟩

theorem levels_none (h : parts.foldlM (level dot) n = none) : ∃ before after,
    parts = before ++ [dot, dot] :: after ∧ before.foldlM (level dot) n = some 0 := by
  induction parts generalizing n with
  | nil => cases h
  | cons part parts ih =>
      rw [List.foldlM_cons] at h
      cases hm : level dot n part with
      | none =>
          simp only [level] at hm
          split at hm
          · cases hm
          · split at hm
            · rename_i hup
              split at hm
              · rename_i hzero
                subst hup hzero
                exact ⟨[], parts, rfl, rfl⟩
              · cases hm
            · cases hm
      | some m =>
          rw [hm] at h
          obtain ⟨before, after, rfl, hbefore⟩ := ih h
          refine ⟨part :: before, after, rfl, ?_⟩
          rw [List.foldlM_cons, hm]
          exact hbefore

theorem level_ge (h : level dot n part = some k) (hup : part ≠ [dot, dot]) : n ≤ k := by
  simp only [level, if_neg hup] at h
  split at h
  · cases h
    exact le_rfl
  · cases h
    exact Nat.le_succ n

theorem dots_of_levels (h : parts.foldlM (level dot) n = some k) (hlt : k < n) :
    [dot, dot] ∈ parts := by
  induction parts generalizing n with
  | nil =>
      cases h
      exact absurd hlt (lt_irrefl _)
  | cons part parts ih =>
      rw [List.foldlM_cons] at h
      obtain ⟨m, hm, h⟩ := Option.bind_eq_some_iff.mp h
      by_cases hup : part = [dot, dot]
      · exact hup ▸ List.mem_cons_self
      · exact List.mem_cons_of_mem _ (ih h (hlt.trans_le (level_ge hm hup)))

variable (dot) in
theorem mem_foldl_enter (way : List (List α)) {name : List α}
    (h : name ∈ parts.foldl (enter dot) way) : name ∈ way ∨ name ∈ parts := by
  induction parts generalizing way with
  | nil => exact Or.inl h
  | cons part parts ih =>
      rcases ih _ h with hway | hparts
      · rw [enter] at hway
        split at hway
        · exact Or.inl hway
        · split at hway
          · exact Or.inl (List.mem_of_mem_tail hway)
          · rcases List.mem_cons.mp hway with rfl | hway
            · exact Or.inr List.mem_cons_self
            · exact Or.inl hway
      · exact Or.inr (List.mem_cons_of_mem _ hparts)

section Split

variable {α : Type} (isSep : α → Bool)

theorem splitOnP_append {front : List α} (h : ∀ c ∈ front, isSep c = false) (path : List α) :
    (front ++ path).splitOnP isSep = (path.splitOnP isSep).modifyHead (front ++ ·) := by
  induction front with
  | nil =>
      rw [List.nil_append]
      cases path.splitOnP isSep <;> rfl
  | cons c front ih =>
      rw [List.cons_append, List.splitOnP_cons_eq_if_modifyHead, h c List.mem_cons_self,
        if_neg Bool.false_ne_true, ih fun x hx => h x (List.mem_cons_of_mem _ hx)]
      cases path.splitOnP isSep <;> rfl

theorem sum_splitOnP (path : List α) :
    ((path.splitOnP isSep).map fun part => part.length + 1).sum = path.length + 1 := by
  induction path with
  | nil => rfl
  | cons c path ih =>
      rw [List.splitOnP_cons_eq_if_modifyHead]
      split
      · rw [List.map_cons, List.sum_cons, ih, List.length_nil, List.length_cons, Nat.zero_add,
          Nat.add_comm]
      · cases hparts : path.splitOnP isSep with
        | nil => exact absurd hparts (List.splitOnP_ne_nil _ _)
        | cons part parts =>
            rw [hparts] at ih
            simp only [List.modifyHead_cons, List.map_cons, List.sum_cons, List.length_cons] at ih ⊢
            omega

end Split

end Linux2Win.DirPaths
