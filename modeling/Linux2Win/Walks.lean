import Mathlib.Logic.Function.Iterate

namespace Linux2Win.Walks

variable {α : Type} (next : α → Option α)

/-- Where a walk is after `n` steps; a walk that has ended is nowhere. -/
def walk (n : Nat) (a : Option α) : Option α := (fun a => a.bind next)^[n] a

def Along (P : α → Prop) (a : Option α) : Prop := ∀ n b, walk next n a = some b → P b

variable {next}

theorem walk_succ (n : Nat) (a : Option α) : walk next (n + 1) a = walk next n (a.bind next) :=
  Function.iterate_succ_apply _ n a

theorem walk_none (n : Nat) : walk next n none = none := by
  induction n with
  | zero => rfl
  | succ n ih => exact (walk_succ n none).trans ih

theorem walk_start {n : Nat} {a : Option α} {b : α} (h : walk next n a = some b) :
    ∃ c, a = some c ∧ walk next n (some c) = some b := by
  cases a with
  | none =>
      rw [walk_none] at h
      cases h
  | some c => exact ⟨c, rfl, h⟩

theorem walk_mono {n m : Nat} (hle : n ≤ m) {a : Option α} (h : walk next n a = none) :
    walk next m a = none := by
  induction n generalizing m a with
  | zero =>
      obtain rfl : a = none := h
      exact walk_none m
  | succ n ih =>
      obtain ⟨m, rfl⟩ := Nat.exists_eq_add_of_lt hle
      rw [walk_succ] at h ⊢
      exact ih (by omega) h

section Along

variable {P I : α → Prop} {a : α}

theorem along_none : Along next P none := by
  intro n b h
  rw [walk_none] at h
  cases h

theorem along_some : Along next P (some a) ↔ P a ∧ Along next P (next a) := by
  constructor
  · intro h
    refine ⟨h 0 a rfl, fun n b hwalk => h (n + 1) b ?_⟩
    rwa [walk_succ]
  · rintro ⟨ha, hrest⟩ n b hwalk
    cases n with
    | zero =>
        cases hwalk
        exact ha
    | succ n =>
        rw [walk_succ] at hwalk
        exact hrest n b hwalk

theorem along_of_invariant (hstep : ∀ a b, I a → next a = some b → I b) (ha : I a) :
    Along next I (some a) := by
  intro n
  induction n generalizing a with
  | zero =>
      rintro b ⟨⟩
      exact ha
  | succ n ih =>
      intro b hwalk
      rw [walk_succ, Option.bind_some] at hwalk
      cases hnext : next a with
      | none =>
          rw [hnext, walk_none] at hwalk
          cases hwalk
      | some c =>
          rw [hnext] at hwalk
          exact ih (hstep a c ha hnext) b hwalk

end Along

end Linux2Win.Walks
