import Linux2Win.Startup
import Mathlib.Data.List.AList

namespace Linux2Win.Instances

open DirEnum MountDirs Runs Startup

/-- How far a process of the daemon is: before its `CreateMutexW`, at the message that
another one is running, or at work, with a handle of the mutex if it has got one. -/
inductive Phase
  | begun | refused | active (hasHandle : Bool)
  deriving DecidableEq, Repr

/-- The message is shown while the handle is still open. -/
def Phase.holds : Phase → Bool
  | .begun => false
  | .refused => true
  | .active hasHandle => hasHandle

structure Session where
  setup : Setup
  processes : AList fun _ : Nat => Phase

/-- The mutex is there as long as a process has a handle of it. -/
def Session.named (s : Session) : Bool := s.processes.entries.any fun e => e.2.holds

/-- What `wWinMain` makes of its `CreateMutexW`: a mutex that cannot be opened does not count
as one that is there already. -/
def created (opens named : Bool) : Phase :=
  if !opens then .active false else if named then .refused else .active true

/-- The commands that Windows starts at a logon. -/
def logonCommands (s : Setup) : List WString :=
  s.task.toList ++ (s.runValue.map cStr).toList

inductive Event
  | launch (process : Nat)
  | createMutex (process : Nat) (opens : Bool)
  | leave (process : Nat)
  | change (op : Op)
  | uninstall (c : UninstallCalls)

/-- A step of the session; none where it is not possible. The uninstaller posts `WM_CLOSE`
to the window of a daemon if it finds one, and goes on: a daemon that closes for it leaves
in a step of its own. -/
def step (s : Session) : Event → Option Session
  | .launch process =>
      if process ∈ s.processes then none
      else some { s with processes := s.processes.insert process .begun }
  | .createMutex process opens =>
      if s.processes.lookup process = some .begun then
        some { s with processes := s.processes.insert process (created opens s.named) }
      else none
  | .leave process =>
      if process ∈ s.processes then some { s with processes := s.processes.erase process } else none
  | .change op => some { s with setup := Startup.step s.setup op }
  | .uninstall c => some { s with setup := Startup.step s.setup (.uninstall c true) }

section Steps

variable {s t : Session} {e : Event} {process other : Nat} {phase : Phase}

theorem named_iff : s.named = true ↔ ∃ process phase, s.processes.lookup process = some phase ∧
    phase.holds = true := by
  rw [Session.named, List.any_eq_true]
  constructor
  · rintro ⟨⟨process, phase⟩, hmem, hholds⟩
    exact ⟨process, phase, AList.mem_lookup_iff.mpr hmem, hholds⟩
  · rintro ⟨process, phase, hlookup, hholds⟩
    exact ⟨⟨process, phase⟩, AList.mem_lookup_iff.mp hlookup, hholds⟩

inductive Step (s : Session) : Event → Session → Prop
  | launch {process : Nat} (hnew : s.processes.lookup process = none) :
      Step s (.launch process) { s with processes := s.processes.insert process .begun }
  | createMutex {process : Nat} (opens : Bool) (hbegun : s.processes.lookup process = some .begun) :
      Step s (.createMutex process opens)
        { s with processes := s.processes.insert process (created opens s.named) }
  | leave {process : Nat} (phase : Phase) (hthere : s.processes.lookup process = some phase) :
      Step s (.leave process) { s with processes := s.processes.erase process }
  | setup {e : Event} (setup : Setup) (hkind : (∃ op, e = .change op) ∨ ∃ c, e = .uninstall c) :
      Step s e { s with setup }

theorem step_cases (h : step s e = some t) : Step s e t := by
  cases e with
  | launch process =>
      rw [step] at h
      split at h
      · cases h
      · cases h
        exact .launch (AList.lookup_eq_none.mpr ‹_›)
  | createMutex process opens =>
      rw [step] at h
      split at h
      · cases h
        exact .createMutex opens ‹_›
      · cases h
  | leave process =>
      rw [step] at h
      split at h
      · cases h
        obtain ⟨phase, hphase⟩ := Option.isSome_iff_exists.mp (AList.lookup_isSome.mpr ‹_›)
        exact .leave phase hphase
      · cases h
  | change op =>
      cases h
      exact .setup _ (Or.inl ⟨op, rfl⟩)
  | uninstall c =>
      cases h
      exact .setup _ (Or.inr ⟨c, rfl⟩)

end Steps

/-- No two daemons are at work with a handle of the mutex. -/
def Single (s : Session) : Prop :=
  ∀ p q, s.processes.lookup p = some (.active true) → s.processes.lookup q = some (.active true) → p = q

section Instances

variable {s t : Session} {e : Event} {p q : Nat} {phase : Phase}

theorem created_active {opens named : Bool} (h : created opens named = .active true) :
    opens = true ∧ named = false := by
  cases opens <;> cases named <;> simp_all [created]

theorem lookup_insert_cases {processes : AList fun _ : Nat => Phase} {new : Phase}
    (h : (processes.insert p new).lookup q = some phase) :
    q = p ∧ phase = new ∨ q ≠ p ∧ processes.lookup q = some phase := by
  by_cases hq : q = p
  · subst hq
    rw [AList.lookup_insert] at h
    exact Or.inl ⟨rfl, (Option.some.inj h).symm⟩
  · rw [AList.lookup_insert_ne hq] at h
    exact Or.inr ⟨hq, h⟩

theorem lookup_erase_some {processes : AList fun _ : Nat => Phase}
    (h : (processes.erase p).lookup q = some phase) : processes.lookup q = some phase := by
  by_cases hq : q = p
  · subst hq
    rw [AList.lookup_erase] at h
    cases h
  · rwa [AList.lookup_erase_ne hq] at h

theorem not_active_of_unnamed (h : s.named = false) : s.processes.lookup p ≠ some (.active true) := by
  intro hp
  rw [named_iff.mpr ⟨p, _, hp, rfl⟩] at h
  cases h

theorem step_single (h : Single s) (hstep : Step s e t) : Single t := by
  cases hstep with
  | launch hnew =>
      intro p q hp hq
      rcases lookup_insert_cases hp with ⟨_, hp⟩ | ⟨_, hp⟩
      · cases hp
      · rcases lookup_insert_cases hq with ⟨_, hq⟩ | ⟨_, hq⟩
        · cases hq
        · exact h p q hp hq
  | createMutex opens hbegun =>
      intro p q hp hq
      rcases lookup_insert_cases hp with ⟨rfl, hpnew⟩ | ⟨_, hpold⟩
      · rcases lookup_insert_cases hq with ⟨rfl, _⟩ | ⟨_, hqold⟩
        · rfl
        · exact absurd hqold (not_active_of_unnamed (created_active hpnew.symm).2)
      · rcases lookup_insert_cases hq with ⟨rfl, hqnew⟩ | ⟨_, hqold⟩
        · exact absurd hpold (not_active_of_unnamed (created_active hqnew.symm).2)
        · exact h p q hpold hqold
  | leave _ _ => exact fun p q hp hq => h p q (lookup_erase_some hp) (lookup_erase_some hq)
  | setup _ _ => exact h

/-- A process with a handle stays, and nothing comes to work with one beside it. -/
theorem step_blocked (hholder : s.processes.lookup p = some phase) (hholds : phase.holds = true)
    (hstep : Step s e t) (hstays : e ≠ .leave p) :
    t.processes.lookup p = some phase ∧
      ∀ q, t.processes.lookup q = some (.active true) → s.processes.lookup q = some (.active true) := by
  have hnamed : s.named = true := named_iff.mpr ⟨p, phase, hholder, hholds⟩
  cases hstep with
  | launch hnew =>
      refine ⟨?_, fun q hq => ?_⟩
      · rw [AList.lookup_insert_ne, hholder]
        rintro rfl
        cases hholder.symm.trans hnew
      · rcases lookup_insert_cases hq with ⟨_, hq⟩ | ⟨_, hq⟩
        · cases hq
        · exact hq
  | createMutex opens hbegun =>
      refine ⟨?_, fun q hq => ?_⟩
      · rw [AList.lookup_insert_ne, hholder]
        rintro rfl
        cases hholder.symm.trans hbegun
        cases hholds
      · rcases lookup_insert_cases hq with ⟨_, hq⟩ | ⟨_, hq⟩
        · cases hnamed.symm.trans (created_active hq.symm).2
        · exact hq
  | @leave process _ _ =>
      refine ⟨?_, fun q hq => lookup_erase_some hq⟩
      rw [AList.lookup_erase_ne, hholder]
      rintro rfl
      exact hstays rfl
  | setup _ _ => exact ⟨hholder, fun _ hq => hq⟩

structure Served (s : Session) : Prop where
  handles : ∀ p, s.processes.lookup p ≠ some (.active false)
  works : ∀ p phase, s.processes.lookup p = some phase → phase ≠ .begun →
    ∃ q, s.processes.lookup q = some (.active true)

/-- The processes that start at a logon come through, and no others start. -/
def Logon (processes : List Nat) (_ : Session) (e : Event) : Prop :=
  (∃ p ∈ processes, e = .launch p) ∨ ∃ p, e = .createMutex p true

theorem step_served {processes : List Nat} (h : Served s) (hstep : Step s e t)
    (hlogon : Logon processes s e) : Served t := by
  cases hstep with
  | @launch process hnew =>
      refine ⟨fun p hp => ?_, fun p phase hp hcame => ?_⟩
      · rcases lookup_insert_cases hp with ⟨_, hphase⟩ | ⟨_, hold⟩
        · cases hphase
        · exact h.handles p hold
      · rcases lookup_insert_cases hp with ⟨_, hphase⟩ | ⟨_, hold⟩
        · exact absurd hphase hcame
        · obtain ⟨q, hq⟩ := h.works p phase hold hcame
          refine ⟨q, ?_⟩
          rw [AList.lookup_insert_ne, hq]
          rintro rfl
          cases hq.symm.trans hnew
  | @createMutex process opens hbegun =>
      obtain rfl : opens = true := by
        rcases hlogon with ⟨_, _, he⟩ | ⟨_, he⟩
        · cases he
        · cases he
          rfl
      refine ⟨fun p hp => ?_, fun p phase hp hcame => ?_⟩
      · rcases lookup_insert_cases hp with ⟨_, hphase⟩ | ⟨_, hold⟩
        · cases hn : s.named <;> rw [hn] at hphase <;> cases hphase
        · exact h.handles p hold
      · cases hn : s.named with
        | false => exact ⟨process, AList.lookup_insert _⟩
        | true =>
            obtain ⟨r, phase', hr, hholds⟩ := named_iff.mp hn
            obtain ⟨q, hq⟩ := h.works r phase' hr (by rintro rfl; cases hholds)
            refine ⟨q, ?_⟩
            rw [AList.lookup_insert_ne, hq]
            rintro rfl
            cases hq.symm.trans hbegun
  | leave _ _ =>
      rcases hlogon with ⟨_, _, he⟩ | ⟨_, he⟩
      · cases he
      · cases he
  | setup _ _ => exact ⟨h.handles, h.works⟩

theorem step_among {processes : List Nat} (h : ∀ p phase, s.processes.lookup p = some phase → p ∈ processes)
    (hstep : Step s e t) (hlogon : Logon processes s e) :
    ∀ p phase, t.processes.lookup p = some phase → p ∈ processes := by
  cases hstep with
  | launch _ =>
      intro p phase hp
      rcases lookup_insert_cases hp with ⟨rfl, _⟩ | ⟨_, hold⟩
      · rcases hlogon with ⟨q, hq, he⟩ | ⟨_, he⟩
        · cases he
          exact hq
        · cases he
      · exact h p phase hold
  | createMutex opens hbegun =>
      intro p phase hp
      rcases lookup_insert_cases hp with ⟨rfl, _⟩ | ⟨_, hold⟩
      · exact h p _ hbegun
      · exact h p phase hold
  | leave _ _ => exact fun p phase hp => h p phase (lookup_erase_some hp)
  | setup _ _ => exact h

theorem logonCommands_registered {chosen : Option WString} {setup : Setup} (h : Registered chosen setup)
    (hnul : ∀ exePath ∈ chosen, 0 ∉ exePath) :
    logonCommands setup = (chosen.map fun exePath => [startCommand exePath, startCommand exePath]).getD [] := by
  rw [logonCommands, h.task, h.run]
  cases chosen with
  | none => rfl
  | some exePath =>
      have hplain : 0 ∉ startCommand exePath := by
        rw [startCommand, List.mem_append, List.mem_append]
        rintro ((hq | he) | hd)
        · exact absurd hq (by decide)
        · exact hnul exePath rfl he
        · exact absurd hd (by decide)
      have hcut : cStr (startCommand exePath ++ [0]) = startCommand exePath := by
        rw [cStr, List.takeWhile_append_of_pos]
        · simp
        · intro c hc
          exact bne_iff_ne.mpr fun h0 => hplain (h0 ▸ hc)
      rw [Option.map_some, Option.map_some, Option.map_some, Option.toList_some, Option.toList_some, hcut]
      rfl

end Instances

/-- However processes start, end and are uninstalled, at most one daemon is at work among
those that could open the mutex. -/
theorem single_instance (setup : Setup) (s : Session)
    (h : Reachable step (fun _ _ => True) ⟨setup, ∅⟩ s) : Single s :=
  h.invariant (fun _ _ hp => by cases hp) fun _ _ _ hs _ hstep => step_single hs (step_cases hstep)

/-- The second process cannot open the mutex of the first, and both come to work. -/
theorem single_instance_denied : ∃ s,
    follow step ⟨clean, ∅⟩ [.launch 1, .launch 2, .createMutex 1 true, .createMutex 2 false] = some s ∧
      s.processes.lookup 2 = some (.active false) ∧ Single s := by
  have hrun : follow step ⟨clean, ∅⟩
    [.launch 1, .launch 2, .createMutex 1 true, .createMutex 2 false] = some _ := rfl
  exact ⟨_, hrun, rfl, single_instance clean _ (Reachable.init.follow (fun _ _ _ => trivial) hrun)⟩

/-- A process with a handle of the mutex, be it a daemon at work or one that only shows
its message, keeps it until it leaves, and until then no process comes to work with a
handle beside it. -/
theorem holder_blocks (s t : Session) (p : Nat) (phase : Phase)
    (hholder : s.processes.lookup p = some phase) (hholds : phase.holds = true)
    (h : Reachable step (fun _ e => e ≠ .leave p) s t) :
    t.processes.lookup p = some phase ∧
      ∀ q, t.processes.lookup q = some (.active true) → s.processes.lookup q = some (.active true) := by
  induction h with
  | init => exact ⟨hholder, fun _ hq => hq⟩
  | step _ hstays hstep ih =>
      obtain ⟨hkept, hactive⟩ := step_blocked ih.1 hholds (step_cases hstep) hstays
      exact ⟨hkept, fun q hq => ih.2 q (hactive q hq)⟩

/-- A daemon is at work, and a second one shows that it is. -/
def shownTwice : Session := ⟨clean, [⟨1, Phase.active true⟩, ⟨2, Phase.refused⟩].toAList⟩

def upgrade : List Event :=
  [.uninstall ⟨⟨true, true, true, true, true⟩, .removed, .removed, .removed, true, true⟩, .leave 1,
    .launch 3, .createMutex 3 true]

/-- The message is still open when the daemon at work has been uninstalled, and turns away
the one that is installed next. -/
theorem holder_blocks_upgrade : ∃ t, follow step shownTwice upgrade = some t ∧
    t.processes.lookup 2 = some .refused ∧
    ∀ q, t.processes.lookup q = some (.active true) →
      shownTwice.processes.lookup q = some (.active true) := by
  have hrun : follow step shownTwice upgrade = some _ := rfl
  exact ⟨_, hrun, holder_blocks shownTwice _ 2 .refused rfl rfl
    (Reachable.init.follow (by simp [upgrade]) hrun)⟩

/-- A program that is registered is started twice at a logon, by its task and by the `Run`
key. One of the processes comes to work, whichever is the first to ask for the mutex, and
the other one shows the message. -/
theorem logon_starts_one (s t : Session) (hempty : s.processes = ∅) (chosen : Option WString)
    (h : Registered chosen s.setup) (hnul : ∀ exePath ∈ chosen, 0 ∉ exePath) (processes : List Nat)
    (hnodup : processes.Nodup) (hcount : processes.length = (logonCommands s.setup).length)
    (hrun : Reachable step (Logon processes) s t)
    (hcame : ∀ p ∈ processes, ∃ phase, t.processes.lookup p = some phase ∧ phase ≠ .begun) :
    (chosen = none → ∀ p, t.processes.lookup p = none) ∧
      ∀ exePath, chosen = some exePath →
        logonCommands s.setup = [startCommand exePath, startCommand exePath] ∧
        ∃ p r, (processes = [p, r] ∨ processes = [r, p]) ∧ p ≠ r ∧
          t.processes.lookup p = some (.active true) ∧ t.processes.lookup r = some .refused := by
  have hcommands := logonCommands_registered h hnul
  have hnone : ∀ p phase, s.processes.lookup p = some phase → False := by
    intro p phase hp
    rw [hempty] at hp
    cases hp
  obtain ⟨hsingle, hserved, hamong⟩ : Single t ∧ Served t ∧
      ∀ p phase, t.processes.lookup p = some phase → p ∈ processes := by
    clear hcame
    induction hrun with
    | init =>
        exact ⟨fun p _ hp => (hnone p _ hp).elim, ⟨fun p hp => hnone p _ hp,
          fun p _ hp => (hnone p _ hp).elim⟩, fun p _ hp => (hnone p _ hp).elim⟩
    | step _ hlogon hstep ih =>
        have hcases := step_cases hstep
        exact ⟨step_single ih.1 hcases, step_served ih.2.1 hcases hlogon,
          step_among ih.2.2 hcases hlogon⟩
  constructor
  · rintro rfl p
    rw [hcommands] at hcount
    rw [List.length_eq_zero_iff.mp hcount] at hamong
    cases hp : t.processes.lookup p with
    | none => rfl
    | some phase => exact absurd (hamong p phase hp) List.not_mem_nil
  · rintro exePath rfl
    refine ⟨hcommands, ?_⟩
    rw [hcommands] at hcount
    obtain ⟨a, b, rfl⟩ := List.length_eq_two.mp hcount
    have hab : a ≠ b := fun hab => by simp [hab] at hnodup
    -- What is not begun and not the one at work has been refused.
    have hother : ∀ p r, t.processes.lookup p = some (.active true) → r ∈ [a, b] → r ≠ p →
        t.processes.lookup r = some .refused := by
      intro p r hp hr hne
      obtain ⟨phase, hphase, hbegun⟩ := hcame r hr
      cases phase with
      | begun => exact absurd rfl hbegun
      | refused => exact hphase
      | active hasHandle =>
          cases hasHandle with
          | false => exact absurd hphase (hserved.handles r)
          | true => exact absurd (hsingle r p hphase hp) hne
    obtain ⟨phase, hphase, hbegun⟩ := hcame a List.mem_cons_self
    obtain ⟨p, hp⟩ := hserved.works a phase hphase hbegun
    rcases List.mem_pair.mp (hamong p _ hp) with rfl | rfl
    · exact ⟨p, b, Or.inl rfl, hab, hp, hother p b hp (by simp) hab.symm⟩
    · exact ⟨p, a, Or.inr rfl, hab.symm, hp, hother p a hp (by simp) hab⟩

def autostart : Setup :=
  { clean with
    task := some (startCommand (wide "d.exe"))
    runValue := some (startCommand (wide "d.exe") ++ [0])
    config := some ⟨none, some 1⟩ }

theorem logon_starts_one_first : ∃ t,
    follow step ⟨autostart, ∅⟩ [.launch 1, .createMutex 1 true, .launch 2, .createMutex 2 true] = some t ∧
      ((some (wide "d.exe") = none → ∀ p, t.processes.lookup p = none) ∧
      ∀ exePath, some (wide "d.exe") = some exePath →
        logonCommands autostart = [startCommand exePath, startCommand exePath] ∧
        ∃ p r, ([1, 2] = [p, r] ∨ [1, 2] = [r, p]) ∧ p ≠ r ∧
          t.processes.lookup p = some (.active true) ∧ t.processes.lookup r = some .refused) := by
  have hrun : follow step ⟨autostart, ∅⟩
    [.launch 1, .createMutex 1 true, .launch 2, .createMutex 2 true] = some _ := rfl
  refine ⟨_, hrun, logon_starts_one ⟨autostart, ∅⟩ _ rfl (some (wide "d.exe")) ⟨rfl, rfl, rfl⟩ ?_ [1, 2]
    (by decide) rfl (Reachable.init.follow (by simp [Logon]) hrun) ?_⟩
  · intro exePath hexe
    rw [← Option.mem_some_iff.mp hexe]
    decide
  · intro p hp
    rcases List.mem_pair.mp hp with rfl | rfl
    · exact ⟨.active true, rfl, by simp⟩
    · exact ⟨.refused, rfl, by simp⟩

end Linux2Win.Instances
