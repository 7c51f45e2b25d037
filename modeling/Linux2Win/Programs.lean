import Mathlib.Control.Lawful

namespace Linux2Win.Programs

variable {ε α β : Type}

theorem bind_eq_pure {x : ExceptT ε Id α} {f : α → ExceptT ε Id β} {b : β} :
    x >>= f = pure b ↔ ∃ a, x = pure a ∧ f a = pure b := by
  constructor
  · intro h
    match x, h with
    | .ok a, h => exact ⟨a, rfl, h⟩
    | .error e, h => cases h
  · rintro ⟨a, rfl, h⟩
    exact h

theorem pure_injective {a b : α} (h : (pure a : ExceptT ε Id α) = pure b) : a = b := by
  cases h
  rfl

theorem pure_inj {a b : α} : (pure a : ExceptT ε Id α) = pure b ↔ a = b :=
  ⟨pure_injective, congrArg pure⟩

theorem throw_ne_pure {e : ε} {a : α} : (throw e : ExceptT ε Id α) ≠ pure a := by
  intro h
  cases h

theorem map_throw {m : Type → Type} [Monad m] [LawfulMonad m] {α β : Type} (f : α → β) (e : ε) :
    f <$> (throw e : ExceptT ε m α) = throw e := by
  apply ExceptT.ext
  simp

theorem throw_bind {m : Type → Type} [Monad m] [LawfulMonad m] {α β : Type} (e : ε)
    (f : α → ExceptT ε m β) : (throw e : ExceptT ε m α) >>= f = throw e := by
  apply ExceptT.ext
  simp

theorem mapM_eq_pure {m : Type → Type} [Monad m] [LawfulMonad m] {α β : Type} {f : α → m β} {g : α → β}
    {xs : List α} (h : ∀ x ∈ xs, f x = pure (g x)) : xs.mapM f = pure (xs.map g) := by
  induction xs with
  | nil => rw [List.mapM_nil, List.map_nil]
  | cons x xs ih =>
      rw [List.mapM_cons, h x List.mem_cons_self, pure_bind,
        ih fun y hy => h y (List.mem_cons_of_mem _ hy), pure_bind, List.map_cons]

theorem pure_or_throw (x : ExceptT ε Id α) : (∃ a, x = pure a) ∨ ∃ e, x = throw e := by
  match x with
  | .ok a => exact Or.inl ⟨a, rfl⟩
  | .error e => exact Or.inr ⟨e, rfl⟩

def result (x : ExceptT ε Id α) : Option α :=
  match x with
  | .ok a => some a
  | .error _ => none

theorem result_eq_some {x : ExceptT ε Id α} {a : α} : result x = some a ↔ x = pure a := by
  constructor
  · intro h
    match x, h with
    | .ok a, h => cases h; rfl
  · rintro rfl
    rfl

def fault (x : ExceptT ε Id α) : Option ε :=
  match x with
  | .ok _ => none
  | .error e => some e

theorem fault_eq_some {x : ExceptT ε Id α} {e : ε} : fault x = some e ↔ x = throw e := by
  constructor
  · intro h
    match x, h with
    | .error e, h => cases h; rfl
  · rintro rfl
    rfl

theorem eq_pure_getD {x : ExceptT ε Id (Option α)} (h : (result x).join.isSome = true) (d : α) :
    x = pure (some ((result x).join.getD d)) := by
  match x, h with
  | .ok (some a), _ => rfl

end Linux2Win.Programs
