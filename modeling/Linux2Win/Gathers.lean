import Linux2Win.Programs

namespace Linux2Win.Gathers

section Loop

variable {m : Type → Type} [Monad m] {β : Type}

def gather (item : Nat → m (Option β)) : Nat → Nat → List β → m (Bool × List β)
  | _, 0, out => return (true, out)
  | pos, count + 1, out => do
      match ← item pos with
      | none => return (false, out)
      | some x => gather item (pos + 1) count (out ++ [x])

variable [LawfulMonad m] {item : Nat → m (Option β)}

theorem gather_add (pos count more : Nat) (out : List β) :
    gather item pos (count + more) out = gather item pos count out >>= fun r =>
      if r.1 then gather item (pos + count) more r.2 else pure r := by
  induction count generalizing pos out with
  | zero =>
      rw [gather, pure_bind, if_pos rfl, Nat.zero_add, Nat.add_zero]
  | succ count ih =>
      rw [Nat.succ_add, gather, gather, bind_assoc]
      refine bind_congr fun x => ?_
      cases x with
      | none =>
          dsimp only
          rw [pure_bind, if_neg Bool.false_ne_true]
      | some x =>
          dsimp only
          rw [ih, Nat.add_right_comm, Nat.add_assoc]

theorem gather_out (item : Nat → m (Option β)) (pos count : Nat) (out more : List β) :
    gather item pos count (out ++ more) = (fun r => (r.1, out ++ r.2)) <$> gather item pos count more := by
  induction count generalizing pos more with
  | zero => rw [gather, gather, map_pure]
  | succ count ih =>
      rw [gather, gather, map_bind]
      refine bind_congr fun x => ?_
      cases x with
      | none =>
          dsimp only
          rw [map_pure]
      | some x =>
          dsimp only
          rw [List.append_assoc, ih]

theorem gather_run {xs : List β} {pos : Nat}
    (h : ∀ i (hi : i < xs.length), item (pos + i) = pure (some xs[i])) (count : Nat) (out : List β) :
    gather item pos (xs.length + count) out = gather item (pos + xs.length) count (out ++ xs) := by
  induction xs generalizing pos out with
  | nil => rw [List.length_nil, Nat.zero_add, Nat.add_zero, List.append_nil]
  | cons x xs ih =>
      have hfirst : item pos = pure (some x) := h 0 (Nat.succ_pos _)
      rw [List.length_cons, Nat.add_right_comm, gather, hfirst, pure_bind]
      dsimp only
      rw [ih, List.append_assoc, List.singleton_append, Nat.add_right_comm, Nat.add_assoc]
      intro i hi
      rw [Nat.add_right_comm]
      exact h (i + 1) (Nat.succ_lt_succ hi)

end Loop

section Results

variable {ε β : Type} {item : Nat → ExceptT ε Id (Option β)} {pos count : Nat} {out out' : List β}
  {ok : Bool}

theorem gather_length (h : gather item pos count out = pure (ok, out')) :
    out.length ≤ out'.length ∧ (ok = true ↔ out'.length = out.length + count) := by
  induction count generalizing pos out with
  | zero =>
      cases Programs.pure_injective h
      exact ⟨Nat.le_refl _, iff_of_true rfl rfl⟩
  | succ count ih =>
      obtain ⟨x, _, h⟩ := Programs.bind_eq_pure.mp h
      cases x with
      | none =>
          cases Programs.pure_injective h
          exact ⟨Nat.le_refl _, iff_of_false Bool.false_ne_true (by omega)⟩
      | some x =>
          obtain ⟨hle, hiff⟩ := ih h
          rw [List.length_append, List.length_singleton] at hle hiff
          exact ⟨by omega, hiff.trans (by omega)⟩

end Results

end Linux2Win.Gathers
