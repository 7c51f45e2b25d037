import Mathlib.Logic.Basic

namespace Linux2Win.Runs

variable {σ ε : Type} (step : σ → ε → σ)

def Always (P : σ → Prop) : σ → List ε → Prop
  | s, [] => P s
  | s, e :: es => P s ∧ Always P (step s e) es

def Each (G : σ → ε → Prop) : σ → List ε → Prop
  | _, [] => True
  | s, e :: es => G s e ∧ Each G (step s e) es

theorem Always.head {P : σ → Prop} {s : σ} {es : List ε} (h : Always step P s es) : P s := by
  cases es with
  | nil => exact h
  | cons e es => exact h.1

theorem each_of_forall {C : ε → Prop} {s : σ} {es : List ε} (h : ∀ e ∈ es, C e) :
    Each step (fun _ e => C e) s es := by
  induction es generalizing s with
  | nil => trivial
  | cons e es ih =>
      exact ⟨h e List.mem_cons_self, ih fun e' he => h e' (List.mem_cons_of_mem _ he)⟩

/-- If along valid events one step keeps the property exactly when it meets the
condition, then a whole sequence keeps it exactly when all its steps do. -/
theorem always_iff_each {Inv P : σ → Prop} {V G : σ → ε → Prop}
    (hinv : ∀ s e, Inv s → V s e → Inv (step s e))
    (hstep : ∀ s e, Inv s → V s e → P s → (P (step s e) ↔ G s e))
    {s : σ} {es : List ε} (hs : Inv s) (hp : P s) (hv : Each step V s es) :
    Always step P s es ↔ Each step G s es := by
  induction es generalizing s with
  | nil => exact iff_of_true hp trivial
  | cons e es ih =>
      have hi := hinv s e hs hv.1
      constructor
      · intro h
        have hp' := Always.head step h.2
        exact ⟨(hstep s e hs hv.1 hp).mp hp', (ih hi hp' hv.2).mp h.2⟩
      · intro h
        have hp' := (hstep s e hs hv.1 hp).mpr h.1
        exact ⟨hp, (ih hi hp' hv.2).mpr h.2⟩

theorem each_iff_each {Inv : σ → Prop} {F G : σ → ε → Prop} (hinv : ∀ s e, Inv s → Inv (step s e))
    (h : ∀ s e, Inv s → (F s e ↔ G s e)) {s : σ} {es : List ε} (hs : Inv s) :
    Each step F s es ↔ Each step G s es := by
  induction es generalizing s with
  | nil => exact Iff.rfl
  | cons e es ih => exact and_congr (h s e hs) (ih (hinv s e hs))

section Partial

variable (next : σ → ε → Option σ) (G : σ → ε → Prop) (init : σ)

def follow (s : σ) : List ε → Option σ
  | [] => some s
  | e :: es => (next s e).bind fun t => follow t es

inductive Reachable : σ → Prop
  | init : Reachable init
  | step {s t : σ} {e : ε} (before : Reachable s) (meets : G s e) (done : next s e = some t) :
      Reachable t

variable {next G init}

theorem Reachable.invariant {Inv : σ → Prop} (hinit : Inv init)
    (hstep : ∀ s e t, Inv s → G s e → next s e = some t → Inv t) {s : σ}
    (h : Reachable next G init s) : Inv s := by
  induction h with
  | init => exact hinit
  | step _ meets done ih => exact hstep _ _ _ ih meets done

theorem Reachable.mono {H : σ → ε → Prop} (hmono : ∀ s e, G s e → H s e) {s : σ}
    (h : Reachable next G init s) : Reachable next H init s := by
  induction h with
  | init => exact .init
  | step _ meets done ih => exact ih.step (hmono _ _ meets) done

theorem Reachable.trans {s t : σ} (h : Reachable next G init s) (h' : Reachable next G s t) :
    Reachable next G init t := by
  induction h' with
  | init => exact h
  | step _ meets done ih => exact ih.step meets done

/-- Steps that meet the condition wherever they are taken lead from reachable states to
reachable ones. -/
theorem Reachable.follow {s t : σ} {es : List ε} (h : Reachable next G init s)
    (hmeets : ∀ e ∈ es, ∀ s, G s e) (hrun : Runs.follow next s es = some t) :
    Reachable next G init t := by
  induction es generalizing s with
  | nil => exact Option.some.inj hrun ▸ h
  | cons e es ih =>
      obtain ⟨hhead, htail⟩ := List.forall_mem_cons.mp hmeets
      obtain ⟨u, hnext, hrest⟩ := Option.bind_eq_some_iff.mp hrun
      exact ih (h.step (hhead s) hnext) htail hrest

end Partial

end Linux2Win.Runs
