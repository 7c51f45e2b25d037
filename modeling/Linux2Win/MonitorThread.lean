import Linux2Win.Runs
import Mathlib.Data.List.Basic

namespace Linux2Win.MonitorThread

open Runs

inductive Message
  | deviceChange | quit
  deriving DecidableEq, Repr

/-- Where `monitor_thread_proc` is. Its set-up and its initial callbacks come under
`enumerating`, the callbacks of a message under `dispatching`. -/
inductive Worker
  | creating | storing (created : Bool) | checking | failing | returning | enumerating | testing
  | getting | dispatching | destroying | unsetting | ended
  deriving DecidableEq, Repr

/-- Where the owner of the monitor is: outside of its functions, with a note of whether
`stop` has been the last of them, or before the next access of one of them. The destructor
runs `stop` and then destroys the thread object. -/
inductive Owner
  | outside (stopped : Bool)
  | startTest | startSet | startAssign
  | stopTest (destructor : Bool) | stopClear (destructor : Bool) | stopPost (destructor : Bool)
  | stopJoin (destructor : Bool)
  | destroyThread | destroyed | terminated
  deriving DecidableEq, Repr

/-- The monitor with the window of its thread and the message queue of that. The worker is
none while `worker_thread_` is not joinable. -/
structure DiskMonitor where
  running : Bool
  hwnd : Bool
  window : Bool
  queue : List Message
  worker : Option Worker
  owner : Owner
  deriving DecidableEq, Repr

def fresh : DiskMonitor := ⟨false, false, false, [], none, .outside false⟩

def stopReturn (destructor : Bool) : Owner := if destructor then .destroyThread else .outside true

/-- The next access of the owner's function; none while it waits in `join`. -/
def ownerStep (s : DiskMonitor) : Option DiskMonitor :=
  match s.owner with
  | .startTest => some { s with owner := if s.running then .outside false else .startSet }
  | .startSet => some { s with running := true, owner := .startAssign }
  | .startAssign =>
    if s.worker.isSome then some { s with owner := .terminated }
    else some { s with worker := some .creating, queue := [], owner := .outside false }
  | .stopTest destructor =>
    some { s with owner := if s.running then .stopClear destructor else stopReturn destructor }
  | .stopClear destructor => some { s with running := false, owner := .stopPost destructor }
  | .stopPost destructor =>
    some { s with
      queue := if s.hwnd && s.window then s.queue ++ [.quit] else s.queue
      owner := .stopJoin destructor }
  | .stopJoin destructor =>
    if s.worker.all (· == .ended) then some { s with worker := none, owner := stopReturn destructor }
    else none
  | .destroyThread =>
    some { s with owner := if s.worker.isSome then .terminated else .destroyed }
  | .outside _ | .destroyed | .terminated => none

def workerStep (s : DiskMonitor) : Option DiskMonitor :=
  match s.worker with
  | some (.storing created) => some { s with hwnd := created, worker := some .checking }
  | some .checking => some { s with worker := some (if s.hwnd then .enumerating else .failing) }
  | some .failing => some { s with running := false, worker := some .returning }
  | some .returning => some { s with worker := some .ended }
  | some .enumerating => some { s with worker := some .testing }
  | some .testing => some { s with worker := some (if s.running then .getting else .destroying) }
  | some .getting =>
    match s.queue with
    | [] => none
    | .quit :: queue => some { s with queue := queue, worker := some .destroying }
    | .deviceChange :: queue => some { s with queue := queue, worker := some .dispatching }
  | some .dispatching => some { s with worker := some .testing }
  | some .destroying => some { s with window := false, worker := some .unsetting }
  | some .unsetting => some { s with hwnd := false, worker := some .ended }
  | some .creating | some .ended | none => none

inductive Event
  | callStart | callStop | destroy
  | owner
  | worker
  | createWindow (created : Bool)
  | deviceChange
  deriving DecidableEq, Repr

/-- A step of the process; none where it is not possible. -/
def step (s : DiskMonitor) : Event → Option DiskMonitor
  | .callStart => if s.owner matches .outside _ then some { s with owner := .startTest } else none
  | .callStop => if s.owner matches .outside _ then some { s with owner := .stopTest false } else none
  | .destroy => if s.owner matches .outside _ then some { s with owner := .stopTest true } else none
  | .owner => ownerStep s
  | .worker => if s.owner = .terminated then none else workerStep s
  | .createWindow created =>
    if s.owner = .terminated ∨ s.worker ≠ some .creating then none
    else some { s with window := created, worker := some (.storing created) }
  | .deviceChange => if s.window then some { s with queue := s.queue ++ [.deviceChange] } else none

def Owner.stopping : Owner → Bool
  | .stopClear _ | .stopPost _ | .stopJoin _ => true
  | _ => false

def Owner.vacant : Owner → Bool
  | .outside true | .startSet | .startAssign | .destroyThread | .destroyed => true
  | _ => false

def ending (s : DiskMonitor) : Worker → Bool
  | .storing created => !created
  | .checking => !s.hwnd
  | .failing | .returning | .destroying | .unsetting | .ended => true
  | _ => false

structure Sound (s : DiskMonitor) : Prop where
  alive : s.owner ≠ .terminated
  starting : s.owner = .startAssign → s.running = true
  signalled : s.worker.isSome = true → s.running = true ∨ s.owner.stopping = true
  vacant : s.owner.vacant = true → s.worker = none
  ended : s.worker.any (ending s) = true → s.owner.stopping = true
  quits : Message.quit ∈ s.queue → s.worker.isSome = true → s.owner.stopping = true

namespace Sound

variable {s t : DiskMonitor}

theorem of_none (hworker : s.worker = none) (halive : s.owner ≠ .terminated)
    (hstarting : s.owner = .startAssign → s.running = true) : Sound s := by
  constructor <;> simp_all

theorem of_stopping (h : s.owner.stopping = true) : Sound s := by
  constructor
  · intro he
    rw [he] at h
    cases h
  · intro he
    rw [he] at h
    cases h
  · exact fun _ => Or.inr h
  · intro hvacant
    cases howner : s.owner <;> rw [howner] at h hvacant <;> simp_all [Owner.stopping, Owner.vacant]
  · exact fun _ => h
  · exact fun _ _ => h

theorem move (h : Sound s) {o : Owner} (halive : o ≠ .terminated) (hstarting : o ≠ .startAssign)
    (hbefore : s.owner.stopping = false) (hvacant : o.vacant = true → s.worker = none) :
    Sound { s with owner := o } := by
  have hnot : ¬s.owner.stopping = true := by rw [hbefore]; exact Bool.false_ne_true
  exact ⟨halive, fun he => absurd he hstarting, fun hw => Or.inl ((h.signalled hw).resolve_right hnot),
    hvacant, fun hw => absurd (h.ended hw) hnot, fun hq hw => absurd (h.quits hq hw) hnot⟩

theorem worker_none (h : Sound s) (hbefore : s.owner.stopping = false) (hrunning : s.running = false) :
    s.worker = none := by
  by_contra hsome
  rcases h.signalled (Option.isSome_iff_ne_none.mpr hsome) with hr | hs
  · exact Bool.false_ne_true (hrunning.symm.trans hr)
  · exact Bool.false_ne_true (hbefore.symm.trans hs)

theorem work (h : Sound s) (hbefore : s.owner.stopping = false) (hsome : s.worker.isSome = true)
    {w : Worker} {hwnd : Bool} {queue : List Message} (hloop : ending { s with hwnd := hwnd } w = false)
    (hqueue : queue ⊆ s.queue) :
    Sound { s with hwnd := hwnd, queue := queue, worker := some w } := by
  have hnot : ¬s.owner.stopping = true := by rw [hbefore]; exact Bool.false_ne_true
  refine ⟨h.alive, h.starting, fun _ => h.signalled hsome, fun hvacant => ?_, fun hended => ?_,
    fun hquit _ => absurd (h.quits (hqueue hquit) hsome) hnot⟩
  · rw [h.vacant hvacant] at hsome
    cases hsome
  · exact absurd (hloop.symm.trans hended) Bool.false_ne_true

end Sound

theorem fresh_sound : Sound fresh := .of_none rfl nofun nofun

theorem stopReturn_alive (destructor : Bool) :
    stopReturn destructor ≠ .terminated ∧ stopReturn destructor ≠ .startAssign := by
  cases destructor <;> exact ⟨nofun, nofun⟩

section Steps

variable {s t : DiskMonitor}

inductive OwnerStep (s : DiskMonitor) : DiskMonitor → Prop
  | startTest (howner : s.owner = .startTest) :
      OwnerStep s { s with owner := if s.running then .outside false else .startSet }
  | startSet (howner : s.owner = .startSet) : OwnerStep s { s with running := true, owner := .startAssign }
  | assignJoinable (howner : s.owner = .startAssign) (hsome : s.worker.isSome = true) :
      OwnerStep s { s with owner := .terminated }
  | startAssign (howner : s.owner = .startAssign) :
      OwnerStep s { s with worker := some .creating, queue := [], owner := .outside false }
  | stopTest (destructor : Bool) (howner : s.owner = .stopTest destructor) :
      OwnerStep s { s with owner := if s.running then .stopClear destructor else stopReturn destructor }
  | stopClear (destructor : Bool) (howner : s.owner = .stopClear destructor) :
      OwnerStep s { s with running := false, owner := .stopPost destructor }
  | stopPost (destructor : Bool) (howner : s.owner = .stopPost destructor) :
      OwnerStep s { s with
        queue := if s.hwnd && s.window then s.queue ++ [.quit] else s.queue
        owner := .stopJoin destructor }
  | stopJoin (destructor : Bool) (howner : s.owner = .stopJoin destructor) :
      OwnerStep s { s with worker := none, owner := stopReturn destructor }
  | destroyThread (howner : s.owner = .destroyThread) :
      OwnerStep s { s with owner := if s.worker.isSome then .terminated else .destroyed }

theorem ownerStep_cases (hstep : ownerStep s = some t) : OwnerStep s t := by
  rw [ownerStep] at hstep
  cases howner : s.owner <;> rw [howner] at hstep <;> dsimp only at hstep
  case outside | destroyed | terminated => cases hstep
  case startTest => cases hstep; exact .startTest howner
  case startSet => cases hstep; exact .startSet howner
  case startAssign =>
    split at hstep <;> cases hstep
    · rename_i hsome
      exact .assignJoinable howner hsome
    · exact .startAssign howner
  case stopTest destructor => cases hstep; exact .stopTest destructor howner
  case stopClear destructor => cases hstep; exact .stopClear destructor howner
  case stopPost destructor => cases hstep; exact .stopPost destructor howner
  case stopJoin destructor =>
    split at hstep <;> cases hstep
    exact .stopJoin destructor howner
  case destroyThread => cases hstep; exact .destroyThread howner

inductive WorkerStep (s : DiskMonitor) : DiskMonitor → Prop
  | storing (created : Bool) (hworker : s.worker = some (.storing created)) :
      WorkerStep s { s with hwnd := created, worker := some .checking }
  | checking (hworker : s.worker = some .checking) :
      WorkerStep s { s with worker := some (if s.hwnd then .enumerating else .failing) }
  | failing (hworker : s.worker = some .failing) :
      WorkerStep s { s with running := false, worker := some .returning }
  | returning (hworker : s.worker = some .returning) : WorkerStep s { s with worker := some .ended }
  | toTest (hworker : s.worker = some .enumerating ∨ s.worker = some .dispatching) :
      WorkerStep s { s with worker := some .testing }
  | testing (hworker : s.worker = some .testing) :
      WorkerStep s { s with worker := some (if s.running then .getting else .destroying) }
  | quit (queue : List Message) (hworker : s.worker = some .getting) (hqueue : s.queue = .quit :: queue) :
      WorkerStep s { s with queue := queue, worker := some .destroying }
  | message (queue : List Message) (hworker : s.worker = some .getting)
      (hqueue : s.queue = .deviceChange :: queue) :
      WorkerStep s { s with queue := queue, worker := some .dispatching }
  | destroying (hworker : s.worker = some .destroying) :
      WorkerStep s { s with window := false, worker := some .unsetting }
  | unsetting (hworker : s.worker = some .unsetting) :
      WorkerStep s { s with hwnd := false, worker := some .ended }

theorem workerStep_cases (hstep : workerStep s = some t) : WorkerStep s t := by
  rw [workerStep] at hstep
  cases hworker : s.worker with
  | none => rw [hworker] at hstep; cases hstep
  | some w =>
      rw [hworker] at hstep
      cases w <;> dsimp only at hstep
      case creating | ended => cases hstep
      case storing created => cases hstep; exact .storing created hworker
      case checking => cases hstep; exact .checking hworker
      case failing => cases hstep; exact .failing hworker
      case returning => cases hstep; exact .returning hworker
      case enumerating => cases hstep; exact .toTest (Or.inl hworker)
      case testing => cases hstep; exact .testing hworker
      case getting =>
        split at hstep <;> cases hstep
        · rename_i queue hqueue
          exact .quit queue hworker hqueue
        · rename_i queue hqueue
          exact .message queue hworker hqueue
      case dispatching => cases hstep; exact .toTest (Or.inr hworker)
      case destroying => cases hstep; exact .destroying hworker
      case unsetting => cases hstep; exact .unsetting hworker

theorem ownerStep_sound (h : Sound s) (hstep : ownerStep s = some t) : Sound t := by
  cases ownerStep_cases hstep with
  | startTest howner =>
      have hbefore : s.owner.stopping = false := by rw [howner]; rfl
      by_cases hrunning : s.running = true
      · rw [if_pos hrunning]
        exact h.move nofun nofun hbefore nofun
      · rw [if_neg hrunning]
        exact h.move nofun nofun hbefore fun _ =>
          h.worker_none hbefore (Bool.eq_false_iff.mpr hrunning)
  | startSet howner => exact .of_none (h.vacant (by rw [howner]; rfl)) nofun fun _ => rfl
  | assignJoinable howner hsome =>
      rw [h.vacant (by rw [howner]; rfl)] at hsome
      cases hsome
  | startAssign howner => exact ⟨nofun, nofun, fun _ => Or.inl (h.starting howner), nofun, nofun, nofun⟩
  | stopTest destructor howner =>
      have hbefore : s.owner.stopping = false := by rw [howner]; rfl
      by_cases hrunning : s.running = true
      · rw [if_pos hrunning]
        exact .of_stopping rfl
      · rw [if_neg hrunning]
        obtain ⟨halive, hstarting⟩ := stopReturn_alive destructor
        exact h.move halive hstarting hbefore fun _ =>
          h.worker_none hbefore (Bool.eq_false_iff.mpr hrunning)
  | stopClear | stopPost => exact .of_stopping rfl
  | stopJoin destructor =>
      obtain ⟨halive, hstarting⟩ := stopReturn_alive destructor
      exact .of_none rfl halive fun he => absurd he hstarting
  | destroyThread howner =>
      have hnone := h.vacant (by rw [howner]; rfl)
      rw [hnone]
      exact .of_none rfl nofun nofun

theorem workerStep_owner (hstep : workerStep s = some t) : t.owner = s.owner := by
  cases workerStep_cases hstep <;> rfl

theorem workerStep_loop (h : Sound s) (hbefore : s.owner.stopping = false)
    (hstep : workerStep s = some t) : Sound t := by
  have hnot : ¬s.owner.stopping = true := by rw [hbefore]; exact Bool.false_ne_true
  have hloop : ∀ w, s.worker = some w → s.worker.isSome = true ∧ ending s w = false := by
    intro w hw
    refine ⟨by rw [hw]; rfl, Bool.eq_false_iff.mpr fun hending => hnot (h.ended ?_)⟩
    rw [hw]
    exact hending
  cases workerStep_cases hstep with
  | storing created hworker =>
      obtain ⟨hsome, hcreated⟩ := hloop _ hworker
      exact h.work hbefore hsome hcreated (List.Subset.refl _)
  | checking hworker =>
      obtain ⟨hsome, hset⟩ := hloop _ hworker
      rw [if_pos (by simpa [ending] using hset)]
      exact h.work hbefore hsome rfl (List.Subset.refl _)
  | failing hworker | returning hworker | destroying hworker | unsetting hworker =>
      cases (hloop _ hworker).2
  | toTest hworker =>
      have hsome : s.worker.isSome = true := by rcases hworker with hw | hw <;> rw [hw] <;> rfl
      exact h.work hbefore hsome rfl (List.Subset.refl _)
  | testing hworker =>
      have hsome := (hloop _ hworker).1
      rw [if_pos ((h.signalled hsome).resolve_right hnot)]
      exact h.work hbefore hsome rfl (List.Subset.refl _)
  | quit queue hworker hqueue =>
      exact absurd (h.quits (by rw [hqueue]; exact List.mem_cons_self) (hloop _ hworker).1) hnot
  | message queue hworker hqueue =>
      apply h.work hbefore (hloop _ hworker).1 rfl
      rw [hqueue]
      exact List.subset_cons_self _ _

theorem workerStep_sound (h : Sound s) (hstep : workerStep s = some t) : Sound t := by
  cases hbefore : s.owner.stopping with
  | true => exact .of_stopping (by rw [workerStep_owner hstep]; exact hbefore)
  | false => exact workerStep_loop h hbefore hstep

/-- A window that cannot be created is no harm once `stop` has seen the flag. -/
def FailsLate (s : DiskMonitor) (e : Event) : Prop :=
  e = .createWindow false → s.owner.stopping = true

theorem createWindow_iff {created : Bool} : step s (.createWindow created) = some t ↔
    (s.owner ≠ .terminated ∧ s.worker = some .creating) ∧
      { s with window := created, worker := some (.storing created) } = t := by
  rw [step, Option.ite_none_left_eq_some, not_or, not_not, Option.some_inj]

theorem step_sound {e : Event} (h : Sound s) (hlate : FailsLate s e) (hstep : step s e = some t) :
    Sound t := by
  have hcall : ∀ {o : Owner}, (∃ stopped, s.owner = .outside stopped) → o ≠ .terminated →
      o ≠ .startAssign → o.vacant = false → Sound { s with owner := o } := by
    rintro o ⟨stopped, howner⟩ halive hstarting hvacant
    refine h.move halive hstarting (by rw [howner]; rfl) fun hv => ?_
    exact absurd (hvacant.symm.trans hv) Bool.false_ne_true
  cases e with
  | callStart | callStop | destroy =>
      rw [step] at hstep
      split at hstep
      · rename_i houtside
        cases hstep
        refine hcall ?_ nofun nofun rfl
        cases howner : s.owner <;> simp [howner] at houtside
        exact ⟨_, rfl⟩
      · cases hstep
  | owner => exact ownerStep_sound h hstep
  | worker =>
      rw [step, if_neg h.alive] at hstep
      exact workerStep_sound h hstep
  | createWindow created =>
      obtain ⟨⟨_, hcreating⟩, rfl⟩ := createWindow_iff.mp hstep
      refine ⟨h.alive, h.starting, fun _ => h.signalled (by rw [hcreating]; rfl), fun hv => ?_,
        fun hended => ?_, fun hq _ => h.quits hq (by rw [hcreating]; rfl)⟩
      · cases (h.vacant hv).symm.trans hcreating
      · apply hlate
        cases created
        · rfl
        · cases hended
  | deviceChange =>
      rw [step] at hstep
      split at hstep
      · cases hstep
        refine ⟨h.alive, h.starting, h.signalled, h.vacant, h.ended, fun hq => h.quits ?_⟩
        exact (List.mem_append.mp hq).resolve_right (by simp)
      · cases hstep

theorem reachable_sound (h : Reachable step FailsLate fresh s) : Sound s :=
  h.invariant fresh_sound fun _ _ _ => step_sound

/-- A window that cannot be created too early leaves a flag behind that hides the thread
from the owner, which can then destroy the thread object or assign to it. -/
theorem early_failure_terminates (h : Sound s) (hstep : step s (.createWindow false) = some t)
    (hbefore : s.owner.stopping = false) :
    ∃ es u, (∀ e ∈ es, e ≠ .createWindow false) ∧ follow step t es = some u ∧
      u.owner = .terminated := by
  obtain ⟨⟨_, hcreating⟩, rfl⟩ := createWindow_iff.mp hstep
  obtain ⟨running, hwnd, window, queue, worker, owner⟩ := s
  dsimp only at hcreating
  subst hcreating
  have hvacant : owner.vacant ≠ true := fun hv => by cases h.vacant hv
  cases owner with
  | outside stopped =>
      cases stopped with
      | true => exact absurd rfl hvacant
      | false =>
          exact ⟨[.worker, .worker, .worker, .destroy, .owner, .owner], _, by decide, rfl, rfl⟩
  | startTest => exact ⟨[.worker, .worker, .worker, .owner, .owner, .owner], _, by decide, rfl, rfl⟩
  | stopTest destructor =>
      cases destructor with
      | true => exact ⟨[.worker, .worker, .worker, .owner, .owner], _, by decide, rfl, rfl⟩
      | false =>
          exact ⟨[.worker, .worker, .worker, .owner, .destroy, .owner, .owner], _, by decide, rfl, rfl⟩
  | startSet | startAssign | destroyThread | destroyed => exact absurd rfl hvacant
  | stopClear destructor | stopPost destructor | stopJoin destructor => cases hbefore
  | terminated => exact absurd rfl h.alive

end Steps

/-- The thread object has not been assigned to or destroyed while it was joinable, and
where `stop` has just returned no thread is running. -/
structure Safe (s : DiskMonitor) : Prop where
  joined : s.owner ≠ .terminated
  stopped : ∀ destructor, s.owner = stopReturn destructor → ∀ w, s.worker = some w → w = .ended

theorem Sound.safe {s : DiskMonitor} (h : Sound s) : Safe s := by
  refine ⟨h.alive, fun destructor howner w hw => ?_⟩
  have hnone := h.vacant (by rw [howner]; cases destructor <;> rfl)
  cases hnone.symm.trans hw

/-- In every run of the owner's calls and the thread in which a window fails to be created
only behind the test of `stop`, the thread is joined in time, and an earlier failure is all
that it takes to end in `std::terminate`. -/
theorem thread_joined_iff (s : DiskMonitor) (h : Reachable step FailsLate fresh s) :
    Safe s ∧ ∀ e t, step s e = some t →
      (FailsLate s e ↔ ∀ u, Reachable step FailsLate t u → Safe u) := by
  have hsound := reachable_sound h
  refine ⟨hsound.safe, fun e t hstep => ⟨fun hlate u hu => ?_, fun hall he => ?_⟩⟩
  · exact (reachable_sound ((h.step hlate hstep).trans hu)).safe
  · subst he
    cases hbefore : s.owner.stopping with
    | true => rfl
    | false =>
        obtain ⟨es, u, hes, hrun, hend⟩ := early_failure_terminates hsound hstep hbefore
        have hu : Reachable step FailsLate t u :=
          Reachable.init.follow (fun e he _ hfail => absurd hfail (hes e he)) hrun
        exact absurd hend (hall u hu).joined

def started : DiskMonitor := ⟨true, false, false, [], some .creating, .outside false⟩

theorem thread_joined_started :
    Safe started ∧ ∀ e t, step started e = some t →
      (FailsLate started e ↔ ∀ u, Reachable step FailsLate t u → Safe u) := by
  have hmeets : ∀ e ∈ [Event.callStart, .owner, .owner, .owner], ∀ s, FailsLate s e := by
    intro e he s hfail
    rw [hfail] at he
    exact absurd he (by decide)
  exact thread_joined_iff started (Reachable.init.follow hmeets rfl)

/-- The window cannot be created. The destructor then meets a joinable thread, and a call of
`stop` at the right time returns before the thread does. -/
theorem failed_window_unjoined :
    follow step started [.createWindow false, .worker, .worker, .worker, .worker, .destroy, .owner,
        .owner] = some ⟨false, false, false, [], some .ended, .terminated⟩ ∧
      follow step started [.createWindow false, .worker, .worker, .worker, .callStop, .owner] =
        some ⟨false, false, false, [], some .returning, .outside true⟩ ∧
      follow step fresh [.callStart, .owner, .owner, .owner] = some started ∧
      ¬Safe ⟨false, false, false, [], some .ended, .terminated⟩ ∧
      ¬Safe ⟨false, false, false, [], some .returning, .outside true⟩ := by
  refine ⟨rfl, rfl, rfl, fun h => h.joined rfl, fun h => ?_⟩
  cases h.stopped false rfl _ rfl

end Linux2Win.MonitorThread
