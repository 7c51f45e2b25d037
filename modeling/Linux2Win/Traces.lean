import Mathlib.Control.Lawful

namespace Linux2Win.Traces

variable {ε σ γ α β : Type}

def exec (x : ExceptT ε (StateM σ) α) (s : σ) : Except ε α × σ := StateT.run (ExceptT.run x) s

theorem exec_bind (x : ExceptT ε (StateM σ) α) (f : α → ExceptT ε (StateM σ) β) (s : σ) :
    exec (x >>= f) s = match exec x s with
      | (.ok a, s') => exec (f a) s'
      | (.error e, s') => (.error e, s') := by
  simp only [exec, ExceptT.run_bind, StateT.run_bind]
  rcases h : StateT.run (ExceptT.run x) s with ⟨_ | a, s'⟩ <;> rfl

theorem exec_bind_ok {x : ExceptT ε (StateM σ) α} {f : α → ExceptT ε (StateM σ) β} {s s' : σ} {b : β} :
    exec (x >>= f) s = (.ok b, s') ↔
      ∃ a t, exec x s = (.ok a, t) ∧ exec (f a) t = (.ok b, s') := by
  rw [exec_bind]
  rcases exec x s with ⟨e | a, t⟩
  · apply iff_of_false nofun
    rintro ⟨_, _, ⟨⟩, _⟩
  · constructor
    · exact fun h => ⟨a, t, rfl, h⟩
    · rintro ⟨_, _, ⟨⟩, h⟩
      exact h

theorem exec_lift_bind (x : StateM σ α) (f : α → ExceptT ε (StateM σ) β) (s : σ) :
    exec (liftM x >>= f) s = exec (f (StateT.run x s).1) (StateT.run x s).2 := rfl

theorem exec_map (f : α → β) (x : ExceptT ε (StateM σ) α) (s : σ) :
    exec (f <$> x) s = ((exec x s).1.map f, (exec x s).2) := by
  rw [map_eq_pure_bind, exec_bind]
  rcases exec x s with ⟨e | a, t⟩ <;> rfl

/-- A relation between the programs of two monads with a clause for each way to build one. -/
structure Congruence {m n : Type → Type} [Monad m] [Monad n]
    (R : {α : Type} → ExceptT ε m α → ExceptT ε n α → Prop) : Prop where
  pure {α : Type} (a : α) : R (pure a : ExceptT ε m α) (pure a)
  throw {α : Type} (e : ε) : R (throw e : ExceptT ε m α) (throw e)
  bind {α β : Type} {x : ExceptT ε m α} {y : ExceptT ε n α} {f : α → ExceptT ε m β}
    {g : α → ExceptT ε n β} (hx : R x y) (hf : ∀ a, R (f a) (g a)) : R (x >>= f) (y >>= g)

theorem Congruence.map {m n : Type → Type} [Monad m] [Monad n] [LawfulMonad m] [LawfulMonad n]
    {R : {α : Type} → ExceptT ε m α → ExceptT ε n α → Prop} (h : Congruence R) {α β : Type}
    (f : α → β) {x : ExceptT ε m α} {y : ExceptT ε n α} (hx : R x y) : R (f <$> x) (f <$> y) := by
  rw [map_eq_pure_bind, map_eq_pure_bind]
  exact h.bind hx fun a => h.pure (f a)

def Grows (x : ExceptT ε (StateM (List γ)) α) : Prop :=
  ∀ log, exec x log = ((exec x []).1, log ++ (exec x []).2)

namespace Grows

theorem pure (a : α) : Grows (pure a : ExceptT ε (StateM (List γ)) α) := fun log =>
  Prod.ext rfl (List.append_nil log).symm

theorem throw (e : ε) : Grows (throw e : ExceptT ε (StateM (List γ)) α) := fun log =>
  Prod.ext rfl (List.append_nil log).symm

theorem bind {x : ExceptT ε (StateM (List γ)) α} {f : α → ExceptT ε (StateM (List γ)) β}
    (hx : Grows x) (hf : ∀ a, Grows (f a)) : Grows (x >>= f) := by
  intro log
  rw [exec_bind, exec_bind, hx log]
  rcases exec x [] with ⟨e | a, new⟩
  · rfl
  · dsimp only
    rw [hf a (log ++ new), hf a new, List.append_assoc]

end Grows

def Logs (x : ExceptT ε (StateM (List γ)) α) (y : ExceptT ε Id α) : Prop :=
  Grows x ∧ (exec x []).1 = y.run

theorem Logs.fst {x : ExceptT ε (StateM (List γ)) α} {y : ExceptT ε Id α} (h : Logs x y)
    (log : List γ) : (exec x log).1 = y.run := by
  rw [h.1 log, h.2]

theorem logs_congruence : Congruence (Logs : {α : Type} → ExceptT ε (StateM (List γ)) α → _) where
  pure a := ⟨.pure a, rfl⟩
  throw e := ⟨.throw e, rfl⟩
  bind {α β x y f g} hx hf := by
    refine ⟨.bind hx.1 fun a => (hf a).1, ?_⟩
    have hrun := hx.2
    rw [exec_bind]
    rcases h : exec x [] with ⟨r, new⟩
    rw [h] at hrun
    obtain rfl : r = y.run := hrun
    cases r with
    | error e => rfl
    | ok a => exact (hf a).fst new

/-- The program ends in no forbidden fault, and all that it logs has the property. -/
def Clean (Q : γ → Prop) (F : ε → Prop) (x : ExceptT ε (StateM (List γ)) α) : Prop :=
  ∀ log, (∀ c ∈ log, Q c) → (∀ e, (exec x log).1 = .error e → F e) ∧ ∀ c ∈ (exec x log).2, Q c

section Clean

variable {Q : γ → Prop} {F : ε → Prop} {x : ExceptT ε (StateM (List γ)) α} {y : ExceptT ε Id α}
  {f : α → ExceptT ε (StateM (List γ)) β}

theorem clean_pure (a : α) : Clean Q F (pure a : ExceptT ε (StateM (List γ)) α) :=
  fun _ hlog => ⟨nofun, hlog⟩

theorem clean_throw {e : ε} (he : F e) : Clean Q F (throw e : ExceptT ε (StateM (List γ)) α) := by
  refine fun _ hlog => ⟨?_, hlog⟩
  rintro _ ⟨⟩
  exact he

theorem Clean.fault (hx : Logs x y) (h : Clean Q F x) {e : ε} (he : y = throw e) : F e :=
  (h [] nofun).1 e (hx.2.trans (congrArg ExceptT.run he))

theorem Clean.bind (hx : Logs x y) (hclean : Clean Q F x)
    (hf : ∀ a, y = pure a → Clean Q F (f a)) : Clean Q F (x >>= f) := by
  intro log hlog
  obtain ⟨hfault, hnew⟩ := hclean log hlog
  have hrun := hx.fst log
  rw [exec_bind]
  rcases h : exec x log with ⟨e | a, log'⟩
  · rw [h] at hfault hnew
    refine ⟨?_, hnew⟩
    rintro _ ⟨⟩
    exact hfault e rfl
  · rw [h] at hrun hnew
    exact hf a hrun.symm log' hnew

theorem Clean.map (g : α → β) (hx : Clean Q F x) : Clean Q F (g <$> x) := by
  intro log hlog
  obtain ⟨hfault, hnew⟩ := hx log hlog
  rw [exec_map]
  refine ⟨fun e he => hfault e ?_, hnew⟩
  cases h : (exec x log).1 with
  | error e' =>
      rw [h] at he
      cases he
      rfl
  | ok a =>
      rw [h] at he
      cases he

theorem Clean.of_map {g : α → β} (h : Clean Q F (g <$> x)) : Clean Q F x := by
  intro log hlog
  obtain ⟨hfault, hnew⟩ := h log hlog
  rw [exec_map] at hfault hnew
  refine ⟨fun e he => hfault e ?_, hnew⟩
  rw [he]
  rfl

theorem clean_iff (hx : Logs x y) :
    Clean Q F x ↔ (∀ e, y = throw e → F e) ∧ ∀ c ∈ (exec x []).2, Q c := by
  constructor
  · exact fun h => ⟨fun e he => h.fault hx he, (h [] nofun).2⟩
  · rintro ⟨hfault, hnew⟩ log hlog
    refine ⟨fun e he => hfault e ?_, ?_⟩
    · rw [hx.fst log] at he
      exact he
    · rw [hx.1 log]
      exact List.forall_mem_append.mpr ⟨hlog, hnew⟩

theorem Clean.first (hf : ∀ a, Grows (f a)) (h : Clean Q F (x >>= f)) : Clean Q F x := by
  intro log hlog
  obtain ⟨hfault, hnew⟩ := h log hlog
  rw [exec_bind] at hfault hnew
  rcases hrun : exec x log with ⟨e | a, log'⟩
  · rw [hrun] at hfault hnew
    refine ⟨?_, hnew⟩
    rintro _ ⟨⟩
    exact hfault e rfl
  · rw [hrun] at hnew
    dsimp only at hnew
    rw [hf a log'] at hnew
    exact ⟨nofun, (List.forall_mem_append.mp hnew).1⟩

theorem Clean.second (hx : Logs x y) (hf : ∀ a, Grows (f a)) (h : Clean Q F (x >>= f)) {a : α}
    (ha : y = pure a) : Clean Q F (f a) := by
  obtain ⟨hfault, hnew⟩ := h [] nofun
  have hrun := hx.2
  rw [exec_bind] at hfault hnew
  rcases hexec : exec x [] with ⟨r, log'⟩
  rw [hexec, ha] at hrun
  obtain rfl : r = .ok a := hrun
  rw [hexec] at hfault hnew
  dsimp only at hfault hnew
  rw [hf a log'] at hfault hnew
  intro log hlog
  rw [hf a log]
  exact ⟨hfault, List.forall_mem_append.mpr ⟨hlog, (List.forall_mem_append.mp hnew).2⟩⟩

end Clean

section Disturbed

variable (count : σ → Nat)

/-- What is counted has happened during the run. -/
def Disturbed (x : ExceptT ε (StateM σ) α) (s : σ) : Prop := count (exec x s).2 ≠ count s

/-- A run in which nothing is counted ends as the other program does. -/
def Agrees (x : ExceptT ε (StateM σ) α) (y : ExceptT ε Id α) : Prop :=
  ∀ s, count s ≤ count (exec x s).2 ∧ (count (exec x s).2 = count s → (exec x s).1 = y.run)

/-- A run in which something is counted returns nothing. -/
def Noticed (x : ExceptT ε (StateM σ) (Option α)) : Prop :=
  ∀ s a s', exec x s = (.ok (some a), s') → count s' = count s

variable {count}

theorem Agrees.ok {x : ExceptT ε (StateM σ) α} {y : ExceptT ε Id α} (h : Agrees count x y) {s s' : σ}
    {a : α} (hexec : exec x s = (.ok a, s')) (hcount : count s' = count s) : y = pure a := by
  have hrun := (h s).2
  rw [hexec] at hrun
  exact (hrun hcount).symm

theorem agrees_congruence : Congruence (Agrees count : {α : Type} → ExceptT ε (StateM σ) α → _) where
  pure a s := ⟨Nat.le_refl _, fun _ => rfl⟩
  throw e s := ⟨Nat.le_refl _, fun _ => rfl⟩
  bind {α β x y f g} hx hf s := by
    obtain ⟨hgrows, hrun⟩ := hx s
    rw [exec_bind]
    rcases h : exec x s with ⟨r, s'⟩
    rw [h] at hgrows hrun
    cases r with
    | error e =>
        refine ⟨hgrows, fun hcount => ?_⟩
        have hy : y = throw e := (hrun hcount).symm
        rw [hy]
        rfl
    | ok a =>
        obtain ⟨hgrows', hrun'⟩ := hf a s'
        dsimp only at hgrows
        refine ⟨Nat.le_trans hgrows hgrows', fun hcount => ?_⟩
        dsimp only at hcount
        have hy : y = pure a := (hrun (by dsimp only; omega)).symm
        rw [hy]
        exact hrun' (by omega)

theorem noticed_pure (o : Option α) : Noticed count (pure o : ExceptT ε (StateM σ) (Option α)) := by
  rintro s a s' h
  cases h
  rfl

theorem noticed_throw (e : ε) : Noticed count (throw e : ExceptT ε (StateM σ) (Option α)) := nofun

theorem Noticed.bind {x : ExceptT ε (StateM σ) (Option α)}
    {f : Option α → ExceptT ε (StateM σ) (Option β)} (hx : Noticed count x) (hnone : f none = pure none)
    (hf : ∀ a, Noticed count (f (some a))) : Noticed count (x >>= f) := by
  intro s b s' h
  obtain ⟨o, t, hexec, hrest⟩ := exec_bind_ok.mp h
  cases o with
  | none =>
      rw [hnone] at hrest
      cases hrest
  | some a => exact (hf a t b s' hrest).trans (hx s a t hexec)

theorem Noticed.none {x : ExceptT ε (StateM σ) (Option α)} (hx : Noticed count x) {s s' : σ}
    {o : Option α} (hexec : exec x s = (.ok o, s')) (h : Disturbed count x s) : o = none := by
  rw [Disturbed, hexec] at h
  cases o with
  | none => rfl
  | some a => exact absurd (hx s a s' hexec) h

end Disturbed

end Linux2Win.Traces
