import Mathlib.Control.Lawful

namespace Linux2Win.Locks

/-- A thread may not lock a mutex that it owns already. -/
inductive LockError
  | alreadyOwned
  deriving DecidableEq

abbrev LockM (m : Type → Type) := ExceptT LockError (StateT Bool m)

variable {m : Type → Type} [Monad m] {α β : Type}

def lock : LockM m Unit :=
  ExceptT.mk fun owned => pure (if owned then .error .alreadyOwned else .ok (), true)

def unlock : LockM m Unit := ExceptT.mk fun _ => pure (.ok (), false)

def guarded (body : LockM m α) : LockM m α := do
  lock
  let a ← body
  unlock
  return a

def unlocked (x : m α) : LockM m α := ExceptT.lift (StateT.lift x)

def outcome (x : LockM m α) (owned : Bool) : m (Except LockError α × Bool) := x.run.run owned

def resume (f : α → LockM m β) : Except LockError α × Bool → m (Except LockError β × Bool)
  | (.ok a, owned) => outcome (f a) owned
  | (.error e, owned) => pure (.error e, owned)

@[simp] theorem outcome_pure (a : α) (owned : Bool) :
    outcome (pure a : LockM m α) owned = pure (.ok a, owned) := rfl

@[simp] theorem outcome_unlock (owned : Bool) :
    outcome (unlock : LockM m Unit) owned = pure (.ok (), false) := rfl

@[simp] theorem outcome_bind (x : LockM m α) (f : α → LockM m β) (owned : Bool) :
    outcome (x >>= f) owned = outcome x owned >>= resume f := by
  rw [outcome, ExceptT.run_bind, StateT.run_bind]
  refine congrArg _ (funext fun r => ?_)
  obtain ⟨_ | a, owned'⟩ := r
  · rfl
  · rfl

variable [LawfulMonad m]

@[simp] theorem outcome_unlocked (x : m α) (owned : Bool) :
    outcome (unlocked x) owned = (fun a => (.ok a, owned)) <$> x := by
  simp [outcome, unlocked, ExceptT.run, ExceptT.lift, ExceptT.mk, StateT.lift, StateT.run, StateT.map,
    Functor.map]

theorem outcome_guarded_owned (body : LockM m α) :
    outcome (guarded body) true = pure (.error .alreadyOwned, true) := by
  rw [guarded, outcome_bind]
  exact pure_bind _ _

theorem outcome_guarded_free (body : LockM m α) :
    outcome (guarded body) false =
      outcome body true >>= resume fun a => unlock >>= fun _ => pure a := by
  rw [guarded, outcome_bind]
  exact (pure_bind _ _).trans (outcome_bind _ _ _)

theorem outcome_guarded {x : m α} {body : LockM m α} (owned : Bool)
    (h : outcome body true = (fun a => (.ok a, owned)) <$> x) :
    outcome (guarded body) false = (fun a => (.ok a, false)) <$> x := by
  rw [outcome_guarded_free, h, map_eq_pure_bind, bind_assoc]
  simp only [pure_bind, resume, outcome_bind, outcome_unlock, outcome_pure]
  exact (map_eq_pure_bind _ x).symm

theorem outcome_bind_throw {x : LockM m α} {owned owned' : Bool} {e : LockError}
    (h : outcome x owned = pure (.error e, owned')) (f : α → LockM m β) :
    outcome (x >>= f) owned = pure (.error e, owned') := by
  rw [outcome_bind, h, pure_bind, resume]

theorem outcome_map {x : LockM m α} {y : m α} {owned owned' : Bool}
    (h : outcome x owned = (fun a => (.ok a, owned')) <$> y) (f : α → β) :
    outcome (f <$> x) owned = (fun b => (.ok b, owned')) <$> f <$> y := by
  rw [← bind_pure_comp, outcome_bind, h, map_eq_pure_bind, bind_assoc, map_eq_pure_bind, bind_map_left]
  simp only [pure_bind, resume, outcome_pure]

theorem outcome_map_throw {x : LockM m α} {owned owned' : Bool} {e : LockError}
    (h : outcome x owned = pure (.error e, owned')) (f : α → β) :
    outcome (f <$> x) owned = pure (.error e, owned') := by
  rw [← bind_pure_comp]
  exact outcome_bind_throw h _

theorem outcome_guarded_throw {body : LockM m α} {owned : Bool} {e : LockError}
    (h : outcome body true = pure (.error e, owned)) :
    outcome (guarded body) false = pure (.error e, owned) := by
  rw [outcome_guarded_free, h, pure_bind, resume]

end Linux2Win.Locks
