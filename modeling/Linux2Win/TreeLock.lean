import Linux2Win.TreeCalls
import Linux2Win.DirEnum
import Linux2Win.Locks
import Linux2Win.Runs

namespace Linux2Win.TreeLock

open Bytes Devices Reader Directory DirEnum Vfs TreeCalls Locks Runs

section Operations

variable {m : Type → Type} [Monad m] (fs : FsReader m)

def getRoot (t : VfsTree) : LockM m (Option NodeId × VfsTree) := guarded (unlocked (Vfs.getRoot fs t))

/-- `ensure_children_loaded` takes no lock. -/
def ensureChildrenLoaded (parent : NodeId) (t : VfsTree) : LockM m (Bool × VfsTree) :=
  unlocked (Vfs.ensureChildrenLoaded fs parent t)

/-- The guard is still in scope where `get_root` takes its own. The walk behind it
calls nothing that locks. -/
def findNode (relativePath : Name) (t : VfsTree) : LockM m (Option NodeId × VfsTree) := guarded do
  let norm := normalizePath relativePath
  if norm.isEmpty then getRoot fs t
  else
    match t.nodeCache.lookup norm with
    | some id => return (some id, t)
    | none =>
      let (root, t) ← getRoot fs t
      match root with
      | none => return (none, t)
      | some r => unlocked (Vfs.walk fs (splitNorm [] norm) r t)

def findNodeW (relativePath : WString) (t : VfsTree) : LockM m (Option NodeId × VfsTree) :=
  findNode fs (narrowPath relativePath) t

end Operations

inductive Call
  | getRoot
  | findNode (relativePath : Name)
  | findNodeW (relativePath : WString)
  | ensureChildrenLoaded (parent : NodeId)

def Call.path : Call → Option Name
  | .findNode relativePath => some relativePath
  | .findNodeW relativePath => some (narrowPath relativePath)
  | .getRoot | .ensureChildrenLoaded _ => none

def Call.plain : Call → TreeCall
  | .getRoot => .getRoot
  | .findNode relativePath => .findNode relativePath
  | .findNodeW relativePath => .findNode (narrowPath relativePath)
  | .ensureChildrenLoaded parent => .ensureChildrenLoaded parent

def Call.perform {m : Type → Type} [Monad m] (fs : FsReader m) (t : VfsTree) :
    Call → LockM m VfsTree
  | .getRoot => Prod.snd <$> TreeLock.getRoot fs t
  | .findNode relativePath => Prod.snd <$> TreeLock.findNode fs relativePath t
  | .findNodeW relativePath => Prod.snd <$> TreeLock.findNodeW fs relativePath t
  | .ensureChildrenLoaded parent => Prod.snd <$> TreeLock.ensureChildrenLoaded fs parent t

def Cached (t : VfsTree) (relativePath : Name) : Prop :=
  normalizePath relativePath ≠ [] ∧ (t.nodeCache.lookup (normalizePath relativePath)).isSome = true

section Outcomes

variable {m : Type → Type} [Monad m] [LawfulMonad m] (fs : FsReader m) (t : VfsTree)

theorem outcome_getRoot : outcome (getRoot fs t) false =
    (fun r => (.ok r, false)) <$> Vfs.getRoot fs t :=
  outcome_guarded true (outcome_unlocked _ _)

theorem outcome_getRoot_owned : outcome (getRoot fs t) true = pure (.error .alreadyOwned, true) :=
  outcome_guarded_owned _

variable {t} {relativePath : Name}

omit [LawfulMonad m] in
theorem findNode_cached (h : Cached t relativePath) :
    Vfs.findNode fs relativePath t =
      pure (t.nodeCache.lookup (normalizePath relativePath), t) := by
  obtain ⟨id, hid⟩ := Option.isSome_iff_exists.mp h.2
  rw [Vfs.findNode]
  dsimp only
  rw [if_neg (by simpa using h.1), hid]

theorem outcome_findNode_cached (h : Cached t relativePath) :
    outcome (findNode fs relativePath t) false =
      (fun r => (.ok r, false)) <$> Vfs.findNode fs relativePath t := by
  obtain ⟨id, hid⟩ := Option.isSome_iff_exists.mp h.2
  apply outcome_guarded true
  dsimp only
  rw [if_neg (by simpa using h.1), hid, findNode_cached fs h, hid, map_pure]
  rfl

theorem outcome_findNode_locks (h : ¬Cached t relativePath) :
    outcome (findNode fs relativePath t) false = pure (.error .alreadyOwned, true) := by
  apply outcome_guarded_throw
  dsimp only
  by_cases hq : normalizePath relativePath = []
  · rw [hq, List.isEmpty_nil, if_pos rfl]
    exact outcome_getRoot_owned fs t
  · have hmiss : t.nodeCache.lookup (normalizePath relativePath) = none := by
      by_contra hne
      exact h ⟨hq, Option.isSome_iff_ne_none.mpr hne⟩
    rw [if_neg (by simpa using hq), hmiss]
    exact outcome_bind_throw (outcome_getRoot_owned fs t) _

variable {call : Call} {path : Name}

/-- Every call that takes the lock once gives it back, and works on the tree as it
does without a lock. -/
theorem outcome_perform (h : ∀ path, call.path = some path → Cached t path) :
    outcome (call.perform fs t) false =
      (fun t' => (.ok t', false)) <$> call.plain.perform fs t := by
  cases call with
  | getRoot => exact outcome_map (outcome_getRoot fs t) _
  | findNode path => exact outcome_map (outcome_findNode_cached fs (h path rfl)) _
  | findNodeW path => exact outcome_map (outcome_findNode_cached fs (h _ rfl)) _
  | ensureChildrenLoaded parent => exact outcome_map (outcome_unlocked _ _) _

theorem outcome_perform_locks (hpath : call.path = some path) (h : ¬Cached t path) :
    outcome (call.perform fs t) false = pure (.error .alreadyOwned, true) := by
  cases call with
  | getRoot | ensureChildrenLoaded _ => cases hpath
  | findNode _ | findNodeW _ =>
      cases hpath
      exact outcome_map_throw (outcome_findNode_locks fs h) _

theorem perform_cached (hpath : call.path = some path) (h : Cached t path) :
    call.plain.perform fs t = pure t := by
  cases call with
  | getRoot | ensureChildrenLoaded _ => cases hpath
  | findNode _ | findNodeW _ =>
      cases hpath
      rw [Call.plain, TreeCall.perform, findNode_cached fs h, map_pure]

end Outcomes

section Threads

variable {σ : Type} (fs : FsReader (ExceptT Fault (StateM σ)))

/-- A thread between two calls. It makes no other call once the reader has ended in a
fault, or once it has locked the mutex a second time. -/
inductive Thread (σ : Type)
  | running (device : σ) (tree : VfsTree) (owned : Bool)
  | faulted (fault : Fault)
  | locked (error : LockError)

def Thread.ofOutcome : Except Fault (Except LockError VfsTree × Bool) × σ → Thread σ
  | (.ok (.ok tree, owned), device) => .running device tree owned
  | (.ok (.error e, _), _) => .locked e
  | (.error fault, _) => .faulted fault

def step : Thread σ → Call → Thread σ
  | .running device tree owned, call =>
      .ofOutcome ((outcome (call.perform fs tree) owned).run.run device)
  | .faulted fault, _ => .faulted fault
  | .locked e, _ => .locked e

def KeepsProtocol (thread : Thread σ) (call : Call) : Prop :=
  ∀ device t owned path, thread = .running device t owned → call.path = some path →
    ∃ device' t', step fs thread call = .running device' t' false

def Hits (thread : Thread σ) (call : Call) : Prop :=
  ∀ device t owned path, thread = .running device t owned → call.path = some path → Cached t path

def Free (thread : Thread σ) : Prop :=
  ∀ device t owned, thread = .running device t owned → owned = false

variable {fs}

def Thread.ofPlain : Except Fault VfsTree × σ → Thread σ
  | (.ok tree, device) => .running device tree false
  | (.error fault, _) => .faulted fault

variable (fs) in
theorem step_plain (device : σ) {t : VfsTree} {call : Call}
    (h : ∀ path, call.path = some path → Cached t path) :
    step fs (.running device t false) call =
      .ofPlain ((call.plain.perform fs t).run.run device) := by
  rw [step, outcome_perform fs h]
  rw [ExceptT.run_map, StateT.run_map]
  generalize (call.plain.perform fs t).run.run device = r
  obtain ⟨_ | _, _⟩ := r
  · rfl
  · rfl

variable (fs) in
theorem step_locks (device : σ) {t : VfsTree} {call : Call} {path : Name}
    (hpath : call.path = some path) (h : ¬Cached t path) :
    step fs (.running device t false) call = .locked .alreadyOwned := by
  rw [step, outcome_perform_locks fs hpath h]
  rfl

theorem step_free {thread : Thread σ} (hfree : Free thread) (call : Call) :
    Free (step fs thread call) := by
  cases thread with
  | faulted _ | locked _ => exact hfree
  | running device t owned =>
      obtain rfl := hfree device t owned rfl
      by_cases h : ∀ path, call.path = some path → Cached t path
      · rw [step_plain fs device h]
        intro device' t' owned' hrun
        generalize (call.plain.perform fs t).run.run device = r at hrun
        obtain ⟨_ | _, _⟩ := r
        · cases hrun
        · cases hrun
          rfl
      · push Not at h
        obtain ⟨path, hpath, hmiss⟩ := h
        rw [step_locks fs device hpath hmiss]
        rintro _ _ _ ⟨⟩

theorem keepsProtocol_iff_hits {thread : Thread σ} (hfree : Free thread) (call : Call) :
    KeepsProtocol fs thread call ↔ Hits thread call := by
  constructor
  · rintro h device t owned path rfl hpath
    obtain rfl := hfree device t owned rfl
    obtain ⟨_, _, hstep⟩ := h device t false path rfl hpath
    by_contra hmiss
    rw [step_locks fs device hpath hmiss] at hstep
    cases hstep
  · rintro h device t owned path rfl hpath
    obtain rfl := hfree device t owned rfl
    have hcached := h device t false path rfl hpath
    refine ⟨device, t, ?_⟩
    rw [step_plain fs device fun _ hpath' => Option.some.inj (hpath.symm.trans hpath') ▸ hcached,
      perform_cached fs hpath hcached]
    rfl

theorem foldl_faulted (fault : Fault) (calls : List Call) :
    calls.foldl (step fs) (.faulted fault) = .faulted fault := by
  induction calls with
  | nil => rfl
  | cons call calls ih => exact ih

theorem run_plain {device : σ} {t : VfsTree} {calls : List Call}
    (h : Each (step fs) Hits (.running device t false) calls) :
    calls.foldl (step fs) (.running device t false) =
      .ofPlain ((runCalls fs (calls.map Call.plain) t).run.run device) := by
  induction calls generalizing device t with
  | nil => rfl
  | cons call calls ih =>
      have hcall := step_plain fs device fun path => h.1 device t false path rfl
      have hrest := h.2
      rw [List.foldl_cons, List.map_cons, runCalls, List.foldlM_cons, ExceptT.run_bind, StateT.run_bind]
      rw [hcall] at hrest ⊢
      generalize (call.plain.perform fs t).run.run device = r at hrest ⊢
      obtain ⟨fault | t', device'⟩ := r
      · exact foldl_faulted fault calls
      · exact ih hrest

variable (fs) in
/-- In every run the calls of `find_node` keep the lock protocol exactly as long as
each of them finds its path in the cache. -/
theorem keepsProtocol_iff (device : σ) (t : VfsTree) (calls : List Call) :
    Each (step fs) (KeepsProtocol fs) (.running device t false) calls ↔
      Each (step fs) Hits (.running device t false) calls := by
  refine each_iff_each _ (fun _ call hfree => step_free hfree call)
    (fun _ call hfree => keepsProtocol_iff_hits hfree call) ?_
  rintro _ _ _ ⟨⟩
  rfl

end Threads

def zeroReader : FsReader (ExceptT Fault (StateM Unit)) :=
  ext4 (fun _ size => pure (some (List.replicate size.toNat 0))) (plainReader 16) 1

/-- The first request of a projection asks for its root, and does not return. -/
theorem first_request_locks :
    step zeroReader (.running () Vfs.empty false) (.findNodeW []) = .locked .alreadyOwned ∧
      ¬Each (step zeroReader) (KeepsProtocol zeroReader) (.running () Vfs.empty false)
        [.findNodeW []] := by
  have hstep : step zeroReader (.running () Vfs.empty false) (.findNodeW []) =
      .locked .alreadyOwned := step_locks zeroReader () rfl fun h => h.1 rfl
  refine ⟨hstep, fun h => ?_⟩
  obtain ⟨_, _, hfree⟩ := h.1 () Vfs.empty false [] rfl rfl
  rw [hstep] at hfree
  cases hfree

end Linux2Win.TreeLock
