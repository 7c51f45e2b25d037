import Linux2Win.MonitorThread

namespace Linux2Win.StopRequests

open Runs MonitorThread

def hasCleared : Owner → Bool
  | .stopPost _ | .stopJoin _ => true
  | _ => false

def hasWindow (s : DiskMonitor) : Worker → Bool
  | .storing created => !created || s.window
  | .checking => !s.hwnd || s.window
  | .enumerating | .testing | .getting | .dispatching => s.hwnd && s.window
  | _ => true

/-- The request to stop is not lost: the flag is down, and a thread that waits for a
message has been sent one. -/
structure Answered (s : DiskMonitor) : Prop where
  cleared : hasCleared s.owner = true → s.running = false
  windowed : ∀ w, s.worker = some w → hasWindow s w = true
  posted : ∀ destructor, s.owner = .stopJoin destructor → s.worker = some .getting →
    Message.quit ∈ s.queue

section Requests

variable {s t : DiskMonitor}

theorem Answered.of_windowed (howner : hasCleared s.owner = false)
    (hwindowed : ∀ w, s.worker = some w → hasWindow s w = true) : Answered s := by
  refine ⟨fun h => absurd (howner.symm.trans h) Bool.false_ne_true, hwindowed, fun d h => ?_⟩
  rw [h] at howner
  cases howner

theorem ownerStep_answered (h : Answered s) (hstep : ownerStep s = some t) : Answered t := by
  cases ownerStep_cases hstep with
  | startTest | destroyThread =>
      refine .of_windowed ?_ h.windowed
      dsimp only
      split <;> rfl
  | startSet | assignJoinable => exact .of_windowed rfl h.windowed
  | startAssign =>
      apply Answered.of_windowed rfl
      rintro _ ⟨⟩
      rfl
  | stopTest destructor =>
      refine .of_windowed ?_ h.windowed
      dsimp only
      split
      · rfl
      · cases destructor <;> rfl
  | stopClear destructor => exact ⟨fun _ => rfl, h.windowed, by simp⟩
  | stopPost destructor howner =>
      refine ⟨fun _ => h.cleared (by rw [howner]; rfl), h.windowed, fun _ _ hgetting => ?_⟩
      have hwindow : (s.hwnd && s.window) = true := h.windowed _ hgetting
      dsimp only
      rw [if_pos hwindow]
      exact List.mem_append_right _ List.mem_cons_self
  | stopJoin destructor =>
      apply Answered.of_windowed
      · cases destructor <;> rfl
      · simp

theorem Answered.work (h : Answered s) {w : Worker} {hwnd window : Bool} {queue : List Message}
    (hne : w ≠ .getting) (hw : hasWindow { s with hwnd := hwnd, window := window } w = true) :
    Answered { s with hwnd := hwnd, window := window, queue := queue, worker := some w } := by
  refine ⟨h.cleared, ?_, fun _ _ hgetting => absurd (Option.some.inj hgetting) hne⟩
  rintro _ ⟨⟩
  exact hw

theorem workerStep_answered (h : Answered s) (hstep : workerStep s = some t) : Answered t := by
  cases workerStep_cases hstep with
  | storing created hworker => exact h.work (by simp) (h.windowed _ hworker)
  | checking hworker =>
      have hw := h.windowed _ hworker
      by_cases hset : s.hwnd = true
      · rw [if_pos hset]
        refine h.work (by simp) ?_
        simpa [hasWindow, hset] using hw
      · rw [if_neg hset]
        exact h.work (by simp) rfl
  | failing => exact ⟨fun _ => rfl, by rintro _ ⟨⟩; rfl, by simp⟩
  | returning | quit | destroying | unsetting => exact h.work (by simp) rfl
  | toTest hworker =>
      have hw : (s.hwnd && s.window) = true := by
        rcases hworker with hworker | hworker <;> exact h.windowed _ hworker
      exact h.work (by simp) hw
  | testing hworker =>
      by_cases hrunning : s.running = true
      · rw [if_pos hrunning]
        refine ⟨h.cleared, by rintro _ ⟨⟩; exact h.windowed _ hworker, fun destructor howner _ => ?_⟩
        -- a thread that still sees the flag is not being waited for
        have hdown : s.running = false := h.cleared (by rw [show s.owner = _ from howner]; rfl)
        exact absurd (hdown.symm.trans hrunning) Bool.false_ne_true
      · rw [if_neg hrunning]
        exact h.work (by simp) rfl
  | message queue hworker =>
      have hw := h.windowed _ hworker
      exact h.work (by simp) hw

theorem step_answered {e : Event} (h : Answered s) (hstep : step s e = some t) : Answered t := by
  cases e with
  | callStart | callStop | destroy =>
      rw [step] at hstep
      split at hstep <;> cases hstep
      exact .of_windowed rfl h.windowed
  | owner => exact ownerStep_answered h hstep
  | worker =>
      rw [step] at hstep
      split at hstep
      · cases hstep
      · exact workerStep_answered h hstep
  | createWindow created =>
      obtain ⟨_, rfl⟩ := createWindow_iff.mp hstep
      refine h.work (by simp) ?_
      cases created <;> rfl
  | deviceChange =>
      rw [step] at hstep
      split at hstep <;> cases hstep
      exact ⟨h.cleared, h.windowed, fun destructor howner hgetting =>
        List.mem_append_left _ (h.posted destructor howner hgetting)⟩

theorem fresh_answered : Answered fresh := .of_windowed rfl (by simp [fresh])

end Requests

def beforeTest : Worker → Bool
  | .creating | .storing _ | .checking | .enumerating | .testing | .dispatching => true
  | _ => false

def leftLoop : Worker → Bool
  | .failing | .returning | .destroying | .unsetting | .ended => true
  | _ => false

def Creates (_ : DiskMonitor) (e : Event) : Prop := e ≠ .createWindow false

/-- Behind the post of `stop` the flag is down, and the thread has `WM_QUIT` before it, or
has yet to test the flag, or has left its loop. -/
theorem stop_not_lost (s : DiskMonitor) (h : Reachable step Creates fresh s) (destructor : Bool)
    (howner : s.owner = .stopJoin destructor ∨ s.owner = stopReturn destructor) (w : Worker)
    (hw : s.worker = some w) :
    s.running = false ∧ ¬(w = .getting ∧ s.queue = []) ∧
      (Message.quit ∈ s.queue ∨ beforeTest w = true ∨ leftLoop w = true) := by
  have hanswered : Answered s :=
    h.invariant fresh_answered fun _ _ _ ih _ hstep => step_answered ih hstep
  rcases howner with howner | howner
  · have hposted := hanswered.posted destructor howner
    refine ⟨hanswered.cleared (by rw [howner]; rfl), ?_, ?_⟩
    · rintro ⟨rfl, hempty⟩
      have hquit := hposted hw
      rw [hempty] at hquit
      cases hquit
    · cases w with
      | getting => exact Or.inl (hposted hw)
      | creating | storing | checking | enumerating | testing | dispatching =>
          exact Or.inr (Or.inl rfl)
      | failing | returning | destroying | unsetting | ended => exact Or.inr (Or.inr rfl)
  · -- a `stop` that has returned has joined the thread
    have hsound := reachable_sound (h.mono fun _ _ hcreates he => absurd he hcreates)
    have hnone := hsound.vacant (by rw [howner]; cases destructor <;> rfl)
    cases hnone.symm.trans hw

def waiting : DiskMonitor := ⟨false, true, true, [.quit], some .getting, .stopJoin false⟩

theorem stop_not_lost_waiting :
    waiting.running = false ∧ ¬(Worker.getting = .getting ∧ waiting.queue = []) ∧
      (Message.quit ∈ waiting.queue ∨ beforeTest .getting = true ∨ leftLoop .getting = true) := by
  have hmeets : ∀ e ∈ [Event.callStart, .owner, .owner, .owner, .createWindow true, .worker, .worker,
      .worker, .worker, .callStop, .owner, .owner, .owner], ∀ s, Creates s e := by
    intro e he s hfail
    rw [hfail] at he
    exact absurd he (by decide)
  exact stop_not_lost waiting (Reachable.init.follow hmeets rfl) false (Or.inl rfl) .getting rfl

end Linux2Win.StopRequests
