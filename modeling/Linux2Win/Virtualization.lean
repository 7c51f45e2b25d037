import Linux2Win.MountFailures
import Mathlib.Data.Fintype.EquivFin

namespace Linux2Win.Virtualization

open DirEnum MountFailures Runs

inductive Export
  | markDirectoryAsPlaceholder | startVirtualizing | stopVirtualizing | fillDirEntryBuffer
  | fileNameMatch | writePlaceholderInfo | allocateAlignedBuffer | freeAlignedBuffer | writeFileData
  deriving DecidableEq, Repr

/-- The library has been loaded, and a function has been found in it. -/
structure Api where
  hModule : Bool
  pointer : Export → Bool

/-- `library` is what `LoadLibraryW` comes back with, by the functions that it has. Whether
one is missing is looked at by the call that loads it only. -/
def load (library : Option (Export → Bool)) (api : Api) : Bool × Api :=
  if api.hModule then (true, api)
  else match library with
    | none => (false, api)
    | some exports =>
      (exports .markDirectoryAsPlaceholder && exports .startVirtualizing && exports .stopVirtualizing &&
        exports .fillDirEntryBuffer && exports .writePlaceholderInfo && exports .writeFileData,
        ⟨true, exports⟩)

structure Mount where
  active : Bool
  context : Option Nat

def constructed : Mount := ⟨false, none⟩

/-- The process: the functions, the mounts that there are, and the instances that Windows
keeps for it, by their contexts, with the mount that each calls back. -/
structure Process where
  api : Api
  mounts : AList fun _ : Nat => Mount
  instances : AList fun _ : Nat => Nat

def launched : Process := ⟨⟨false, fun _ => false⟩, ∅, ∅⟩

inductive Crash
  | nullPointer (function : Export)
  | freed
  deriving DecidableEq, Repr

structure StartCalls where
  library : Option (Export → Bool)
  markDirectoryAsPlaceholder : HResult
  startVirtualizing : HResult
  context : Nat

def start (c : StartCalls) (i : Nat) (m : Mount) (p : Process) : Except Crash (Bool × Process) :=
  if m.active then .ok (true, p)
  else
    let (loaded, api) := load c.library p.api
    let p := { p with api }
    if !loaded then .ok (false, p)
    else if !api.pointer .markDirectoryAsPlaceholder then
      .error (.nullPointer .markDirectoryAsPlaceholder)
    else if failed c.markDirectoryAsPlaceholder && c.markDirectoryAsPlaceholder != errorAlreadyExists then
      .ok (false, p)
    else if !api.pointer .startVirtualizing then .error (.nullPointer .startVirtualizing)
    else if failed c.startVirtualizing then .ok (false, p)
    else
      .ok (true, { p with
        mounts := p.mounts.insert i ⟨true, some c.context⟩
        instances := p.instances.insert c.context i })

/-- A context that cannot be given back stays where it is. -/
def stop (i : Nat) (m : Mount) (p : Process) : Process :=
  if !m.active then p
  else match m.context with
    | some context =>
      if p.api.pointer .stopVirtualizing then
        { p with mounts := p.mounts.insert i ⟨false, none⟩, instances := p.instances.erase context }
      else { p with mounts := p.mounts.insert i ⟨false, some context⟩ }
    | none => { p with mounts := p.mounts.insert i ⟨false, none⟩ }

inductive Callback
  | startDirEnum | endDirEnum | cancelCommand | notification
  | getDirEnum (testsName fills : Bool)
  | getPlaceholderInfo (finds : Bool)
  | getFileData (finds allocates reads : Bool)
  deriving DecidableEq, Repr

/-- `GetDirEnumCallback` has the entries from its session. -/
def Callback.readsTree : Callback → Bool
  | .startDirEnum | .getPlaceholderInfo _ | .getFileData .. => true
  | .endDirEnum | .cancelCommand | .notification | .getDirEnum .. => false

def calling (condition : Bool) (function : Export) : List Export := if condition then [function] else []

/-- The functions that a callback calls. Three are looked at before. -/
def Callback.calls (api : Api) : Callback → List Export
  | .startDirEnum | .endDirEnum | .cancelCommand | .notification => []
  | .getDirEnum testsName fills =>
      calling (testsName && api.pointer .fileNameMatch) .fileNameMatch ++ calling fills .fillDirEntryBuffer
  | .getPlaceholderInfo finds => calling finds .writePlaceholderInfo
  | .getFileData finds allocates reads =>
      let asks := finds && api.pointer .allocateAlignedBuffer
      let has := asks && allocates
      calling asks .allocateAlignedBuffer ++ (calling (has && reads) .writeFileData ++
        calling (has && api.pointer .freeAlignedBuffer) .freeAlignedBuffer)

def callback (cb : Callback) (i : Nat) (p : Process) : Except Crash Process :=
  if cb.readsTree && !decide (i ∈ p.mounts) then .error .freed
  else match (cb.calls p.api).find? fun function => !p.api.pointer function with
    | some function => .error (.nullPointer function)
    | none => .ok p

inductive Event
  | construct (i : Nat)
  | start (i : Nat) (c : StartCalls)
  | stop (i : Nat)
  | destroy (i : Nat)
  | callback (context : Nat) (cb : Callback)

/-- A step of the process, none where it is not possible: a mount is made where there is
none, an instance gets a context of its own, and callbacks come from instances. -/
def step : Except Crash Process → Event → Option (Except Crash Process)
  | .error _, _ => none
  | .ok p, .construct i =>
      if i ∈ p.mounts then none else some (.ok { p with mounts := p.mounts.insert i constructed })
  | .ok p, .start i c =>
      match p.mounts.lookup i with
      | none => none
      | some m => if c.context ∈ p.instances then none else some ((start c i m p).map Prod.snd)
  | .ok p, .stop i => (p.mounts.lookup i).map fun m => .ok (stop i m p)
  | .ok p, .destroy i =>
      (p.mounts.lookup i).map fun m =>
        .ok { stop i m p with mounts := (stop i m p).mounts.erase i }
  | .ok p, .callback context cb => (p.instances.lookup context).map fun i => callback cb i p

structure Callable (api : Api) : Prop where
  markDirectoryAsPlaceholder : api.pointer .markDirectoryAsPlaceholder = true
  startVirtualizing : api.pointer .startVirtualizing = true
  stopVirtualizing : api.pointer .stopVirtualizing = true
  fillDirEntryBuffer : api.pointer .fillDirEntryBuffer = true
  writePlaceholderInfo : api.pointer .writePlaceholderInfo = true
  writeFileData : api.pointer .allocateAlignedBuffer = true → api.pointer .writeFileData = true

/-- Windows keeps one instance for each active mount, and none besides. -/
structure Matched (p : Process) : Prop where
  loaded : ∀ i m, p.mounts.lookup i = some m → m.active = true → p.api.hModule = true
  held : ∀ i m, p.mounts.lookup i = some m → m.active = true → ∃ context, m.context = some context
  instances : ∀ context i, p.instances.lookup context = some i ↔
    ∃ m, p.mounts.lookup i = some m ∧ m.active = true ∧ m.context = some context

section Functions

variable {library : Option (Export → Bool)} {api : Api} {c : StartCalls} {i : Nat} {m : Mount} {p : Process}

theorem load_loaded (h : api.hModule = true) : load library api = (true, api) := if_pos h

theorem load_callable (h : api.hModule = false) (hok : (load library api).1 = true) :
    Callable (load library api).2 := by
  unfold load at hok ⊢
  rw [h] at hok ⊢
  cases library with
  | none => cases hok
  | some exports =>
      change (_ && _) = true at hok
      simp only [Bool.and_eq_true] at hok
      obtain ⟨⟨⟨⟨⟨hmark, hstart⟩, hstop⟩, hfill⟩, hplaceholder⟩, hwrite⟩ := hok
      exact ⟨hmark, hstart, hstop, hfill, hplaceholder, fun _ => hwrite⟩

theorem load_hModule (h : (load library api).1 = true) : (load library api).2.hModule = true := by
  cases hmodule : api.hModule with
  | true => rw [load_loaded hmodule, hmodule]
  | false =>
      unfold load at h ⊢
      rw [hmodule] at h ⊢
      cases library with
      | none => cases h
      | some exports => rfl

theorem start_active (h : m.active = true) : start c i m p = .ok (true, p) := if_pos h

/-- A call for a mount that is not active crashes, has done no more than to load the
library, or leaves the mount with an instance. -/
theorem start_cases (h : m.active = false) :
    ((∃ function, start c i m p = .error (.nullPointer function)) ∧ (load c.library p.api).1 = true ∧
        ¬Callable (load c.library p.api).2) ∨
      start c i m p = .ok (false, { p with api := (load c.library p.api).2 }) ∨
      (load c.library p.api).1 = true ∧ start c i m p = .ok (true,
        ⟨(load c.library p.api).2, p.mounts.insert i ⟨true, some c.context⟩,
          p.instances.insert c.context i⟩) := by
  unfold start
  rw [h, if_neg Bool.false_ne_true]
  dsimp only
  cases hloaded : (load c.library p.api).1 with
  | false => exact Or.inr (Or.inl rfl)
  | true =>
      rw [Bool.not_true, if_neg Bool.false_ne_true]
      cases hmark : (load c.library p.api).2.pointer .markDirectoryAsPlaceholder with
      | false =>
          refine Or.inl ⟨⟨_, rfl⟩, rfl, fun hcallable => ?_⟩
          exact Bool.false_ne_true (hmark.symm.trans hcallable.markDirectoryAsPlaceholder)
      | true =>
          rw [Bool.not_true, if_neg Bool.false_ne_true]
          split
          · exact Or.inr (Or.inl rfl)
          cases hstart : (load c.library p.api).2.pointer .startVirtualizing with
          | false =>
              refine Or.inl ⟨⟨_, rfl⟩, rfl, fun hcallable => ?_⟩
              exact Bool.false_ne_true (hstart.symm.trans hcallable.startVirtualizing)
          | true =>
              rw [Bool.not_true, if_neg Bool.false_ne_true]
              split
              · exact Or.inr (Or.inl rfl)
              · exact Or.inr (Or.inr ⟨rfl, rfl⟩)

theorem start_api (hloaded : p.api.hModule = true) {ok : Bool} {p' : Process}
    (h : start c i m p = .ok (ok, p')) : p'.api = p.api := by
  cases hactive : m.active with
  | true =>
      rw [start_active hactive] at h
      cases h
      rfl
  | false =>
      rcases start_cases (c := c) (i := i) (p := p) hactive with ⟨⟨_, hcrash⟩, _⟩ | hleft | ⟨_, hstarted⟩
      · cases hcrash.symm.trans h
      · cases hleft.symm.trans h
        rw [load_loaded hloaded]
      · cases hstarted.symm.trans h
        rw [load_loaded hloaded]

theorem stop_inactive (h : m.active = false) : stop i m p = p := by rw [stop, h, Bool.not_false, if_pos rfl]

theorem stop_active {context : Nat} (h : m.active = true) (hcontext : m.context = some context) :
    stop i m p = if p.api.pointer .stopVirtualizing then
        { p with mounts := p.mounts.insert i ⟨false, none⟩, instances := p.instances.erase context }
      else { p with mounts := p.mounts.insert i ⟨false, some context⟩ } := by
  rw [stop, h, hcontext, Bool.not_true, if_neg Bool.false_ne_true]

theorem stop_api : (stop i m p).api = p.api := by
  cases hactive : m.active with
  | false => rw [stop_inactive hactive]
  | true =>
      cases hcontext : m.context with
      | none =>
          rw [stop, hactive, hcontext]
          rfl
      | some context =>
          rw [stop_active hactive hcontext]
          split_ifs <;> rfl

theorem mem_calling {condition : Bool} {function e : Export} :
    e ∈ calling condition function ↔ condition = true ∧ e = function := by
  cases condition <;> simp [calling]

theorem calls_found (hcallable : Callable api) (cb : Callback) :
    ∀ function ∈ cb.calls api, api.pointer function = true := by
  intro function h
  cases cb with
  | startDirEnum => cases h
  | endDirEnum => cases h
  | cancelCommand => cases h
  | notification => cases h
  | getDirEnum testsName fills =>
      simp only [Callback.calls, List.mem_append, mem_calling, Bool.and_eq_true] at h
      rcases h with ⟨⟨_, hfound⟩, rfl⟩ | ⟨_, rfl⟩
      · exact hfound
      · exact hcallable.fillDirEntryBuffer
  | getPlaceholderInfo finds =>
      obtain ⟨_, rfl⟩ := mem_calling.mp h
      exact hcallable.writePlaceholderInfo
  | getFileData finds allocates reads =>
      simp only [Callback.calls, List.mem_append, mem_calling, Bool.and_eq_true] at h
      rcases h with ⟨⟨_, hfound⟩, rfl⟩ | ⟨⟨⟨⟨_, hasks⟩, _⟩, _⟩, rfl⟩ | ⟨⟨_, hfound⟩, rfl⟩
      · exact hfound
      · exact hcallable.writeFileData hasks
      · exact hfound

theorem callback_ok (hcallable : Callable p.api) (hthere : i ∈ p.mounts) (cb : Callback) :
    callback cb i p = .ok p := by
  have hfound : (cb.calls p.api).find? (fun function => !p.api.pointer function) = none := by
    rw [List.find?_eq_none]
    intro function hfunction
    rw [calls_found hcallable cb function hfunction]
    exact Bool.false_ne_true
  rw [callback, hfound, decide_eq_true hthere, Bool.not_true, Bool.and_false, if_neg Bool.false_ne_true]

theorem start_agrees (hcallable : (load c.library p.api).1 = true → Callable (load c.library p.api).2)
    (hm : p.mounts.lookup i = some m) :
    ∃ q, start c i m p = .ok ((MountFailures.start ⟨(load c.library p.api).1,
        c.markDirectoryAsPlaceholder, c.startVirtualizing⟩ m.active).1, q) ∧
      (q.mounts.lookup i).map Mount.active = some (MountFailures.start ⟨(load c.library p.api).1,
        c.markDirectoryAsPlaceholder, c.startVirtualizing⟩ m.active).2 := by
  unfold start MountFailures.start
  dsimp only
  cases hactive : m.active with
  | true => exact ⟨p, rfl, by rw [hm, Option.map_some, hactive]; rfl⟩
  | false =>
      have hkept : (p.mounts.lookup i).map Mount.active = some false := by rw [hm, Option.map_some, hactive]
      cases hloaded : (load c.library p.api).1 with
      | false => exact ⟨_, rfl, hkept⟩
      | true =>
          have hfound := hcallable hloaded
          rw [hfound.markDirectoryAsPlaceholder, hfound.startVirtualizing]
          simp only [Bool.false_eq_true, if_false, Bool.not_true]
          split_ifs
          · exact ⟨_, rfl, hkept⟩
          · exact ⟨_, rfl, hkept⟩
          · exact ⟨_, rfl, by rw [AList.lookup_insert]; rfl⟩

end Functions

section Matching

variable {p q : Process} {i : Nat} {m : Mount} {context : Nat} {e : Event} {s : Except Crash Process}

theorem Matched.inactive (h : Matched p) (hloaded : p.api.hModule = true → q.api.hModule = true)
    (hinstances : q.instances = p.instances) (hsame : ∀ j ≠ i, q.mounts.lookup j = p.mounts.lookup j)
    (hbefore : ∀ m, p.mounts.lookup i = some m → m.active = false)
    (hbehind : ∀ m, q.mounts.lookup i = some m → m.active = false) : Matched q := by
  have hold : ∀ j m, q.mounts.lookup j = some m → m.active = true → p.mounts.lookup j = some m := by
    intro j m hj hactive
    by_cases hne : j = i
    · subst hne
      exact absurd ((hbehind m hj).symm.trans hactive) Bool.false_ne_true
    · rwa [hsame j hne] at hj
  have hnew : ∀ j m, p.mounts.lookup j = some m → m.active = true → q.mounts.lookup j = some m := by
    intro j m hj hactive
    by_cases hne : j = i
    · subst hne
      exact absurd ((hbefore m hj).symm.trans hactive) Bool.false_ne_true
    · rwa [hsame j hne]
  refine ⟨fun j m hj hactive => hloaded (h.loaded j m (hold j m hj hactive) hactive),
    fun j m hj hactive => h.held j m (hold j m hj hactive) hactive, fun context j => ?_⟩
  rw [hinstances, h.instances]
  constructor
  · rintro ⟨m, hj, hactive, hcontext⟩
    exact ⟨m, hnew j m hj hactive, hactive, hcontext⟩
  · rintro ⟨m, hj, hactive, hcontext⟩
    exact ⟨m, hold j m hj hactive, hactive, hcontext⟩

theorem Matched.started (h : Matched p) {api : Api} (hloaded : api.hModule = true)
    (hm : p.mounts.lookup i = some m) (hinactive : m.active = false) (hfresh : context ∉ p.instances) :
    Matched ⟨api, p.mounts.insert i ⟨true, some context⟩, p.instances.insert context i⟩ := by
  refine ⟨fun _ _ _ _ => hloaded, fun j n hj hactive => ?_, fun context' j => ?_⟩
  · by_cases hne : j = i
    · subst hne
      rw [AList.lookup_insert] at hj
      cases hj
      exact ⟨context, rfl⟩
    · rw [AList.lookup_insert_ne hne] at hj
      exact h.held j n hj hactive
  · have hnone := AList.lookup_eq_none.mpr hfresh
    by_cases hcontext : context' = context
    · subst hcontext
      rw [AList.lookup_insert]
      constructor
      · intro hj
        cases hj
        exact ⟨_, AList.lookup_insert _, rfl, rfl⟩
      · rintro ⟨n, hj, hactive, hn⟩
        by_cases hne : j = i
        · rw [hne]
        · rw [AList.lookup_insert_ne hne] at hj
          exact absurd ((h.instances context' j).mpr ⟨n, hj, hactive, hn⟩) (by rw [hnone]; exact nofun)
    · rw [AList.lookup_insert_ne hcontext, h.instances]
      by_cases hne : j = i
      · subst hne
        rw [AList.lookup_insert, hm]
        constructor
        · rintro ⟨n, hn, hactive, _⟩
          cases hn
          exact absurd (hinactive.symm.trans hactive) Bool.false_ne_true
        · rintro ⟨n, hn, _, hother⟩
          cases hn
          cases hother
          exact absurd rfl hcontext
      · rw [AList.lookup_insert_ne hne]

theorem Matched.stopped (h : Matched p) (hm : p.mounts.lookup i = some m) (hactive : m.active = true)
    (hcontext : m.context = some context) :
    Matched { p with
      mounts := p.mounts.insert i ⟨false, none⟩, instances := p.instances.erase context } := by
  have hheld : p.instances.lookup context = some i := (h.instances context i).mpr ⟨m, hm, hactive, hcontext⟩
  have hother : ∀ j n, (p.mounts.insert i ⟨false, none⟩).lookup j = some n → n.active = true →
      j ≠ i ∧ p.mounts.lookup j = some n := by
    intro j n hj hn
    have hne : j ≠ i := by
      rintro rfl
      rw [AList.lookup_insert] at hj
      cases hj
      cases hn
    rw [AList.lookup_insert_ne hne] at hj
    exact ⟨hne, hj⟩
  refine ⟨fun j n hj hn => h.loaded j n (hother j n hj hn).2 hn,
    fun j n hj hn => h.held j n (hother j n hj hn).2 hn, fun context' j => ?_⟩
  by_cases hsame : context' = context
  · subst hsame
    rw [AList.lookup_erase]
    refine iff_of_false nofun ?_
    rintro ⟨n, hj, hn, hcontext'⟩
    obtain ⟨hne, hj⟩ := hother j n hj hn
    have hj' := (h.instances context' j).mpr ⟨n, hj, hn, hcontext'⟩
    rw [hheld] at hj'
    exact hne (Option.some.inj hj').symm
  · rw [AList.lookup_erase_ne hsame, h.instances]
    constructor
    · rintro ⟨n, hj, hn, hcontext'⟩
      have hne : j ≠ i := by
        rintro rfl
        cases hm.symm.trans hj
        exact hsame (Option.some.inj (hcontext'.symm.trans hcontext))
      exact ⟨n, by rwa [AList.lookup_insert_ne hne], hn, hcontext'⟩
    · rintro ⟨n, hj, hn, hcontext'⟩
      exact ⟨n, (hother j n hj hn).2, hn, hcontext'⟩

theorem stop_matched (h : Matched p) (hcallable : p.api.hModule = true → Callable p.api)
    (hm : p.mounts.lookup i = some m) : Matched (stop i m p) ∧
      ∃ n, (stop i m p).mounts.lookup i = some n ∧ n.active = false := by
  cases hactive : m.active with
  | false =>
      rw [stop_inactive hactive]
      exact ⟨h, m, hm, hactive⟩
  | true =>
      obtain ⟨context, hcontext⟩ := h.held i m hm hactive
      rw [stop_active hactive hcontext, if_pos (hcallable (h.loaded i m hm hactive)).stopVirtualizing]
      exact ⟨h.stopped hm hactive hcontext, _, AList.lookup_insert _, rfl⟩

theorem launched_matched : Matched launched := by
  have hnone : ∀ i, launched.mounts.lookup i = none := fun _ => rfl
  refine ⟨fun i m hm => ?_, fun i m hm => ?_, fun context i => iff_of_false nofun ?_⟩
  · cases (hnone i).symm.trans hm
  · cases (hnone i).symm.trans hm
  · rintro ⟨m, hm, _⟩
    cases (hnone i).symm.trans hm

theorem step_matched (h : Matched p) (hcallable : p.api.hModule = true → Callable p.api)
    (hstep : step (.ok p) e = some s) : ∃ q, s = .ok q ∧ Matched q := by
  cases e with
  | construct i =>
      rw [step] at hstep
      split at hstep
      · cases hstep
      cases hstep
      have hnew := AList.lookup_eq_none.mpr ‹_›
      refine ⟨_, rfl, h.inactive (i := i) id rfl (fun j hne => AList.lookup_insert_ne hne) ?_ ?_⟩
      · intro m hm
        cases hnew.symm.trans hm
      · intro m hm
        rw [AList.lookup_insert] at hm
        cases hm
        rfl
  | start i c =>
      rw [step] at hstep
      split at hstep
      · cases hstep
      rename_i m hm
      split at hstep
      · cases hstep
      cases hstep
      cases hactive : m.active with
      | true =>
          rw [start_active hactive]
          exact ⟨p, rfl, h⟩
      | false =>
          rcases start_cases (c := c) (i := i) (p := p) hactive with
            ⟨_, hloaded, hmissing⟩ | hleft | ⟨hloaded, hstarted⟩
          · cases hmodule : p.api.hModule with
            | false => exact absurd (load_callable hmodule hloaded) hmissing
            | true =>
                rw [load_loaded hmodule] at hmissing
                exact absurd (hcallable hmodule) hmissing
          · rw [hleft]
            have hkept : p.api.hModule = true → (load c.library p.api).2.hModule = true := by
              intro hmodule
              rw [load_loaded hmodule, hmodule]
            have hinactive : ∀ n, p.mounts.lookup i = some n → n.active = false := by
              intro n hn
              cases hm.symm.trans hn
              exact hactive
            exact ⟨_, rfl, h.inactive (i := i) hkept rfl (fun _ _ => rfl) hinactive hinactive⟩
          · rw [hstarted]
            exact ⟨_, rfl, h.started (load_hModule hloaded) hm hactive ‹_›⟩
  | stop i =>
      obtain ⟨m, hm, rfl⟩ := Option.map_eq_some_iff.mp hstep
      exact ⟨_, rfl, (stop_matched h hcallable hm).1⟩
  | destroy i =>
      obtain ⟨m, hm, rfl⟩ := Option.map_eq_some_iff.mp hstep
      obtain ⟨hstopped, n, hn, hinactive⟩ := stop_matched h hcallable hm
      refine ⟨_, rfl, hstopped.inactive (i := i) id rfl (fun j hne => AList.lookup_erase_ne hne) ?_ ?_⟩
      · intro n' hn'
        cases hn.symm.trans hn'
        exact hinactive
      · intro n' hn'
        rw [AList.lookup_erase] at hn'
        cases hn'
  | callback context cb =>
      obtain ⟨i, hi, rfl⟩ := Option.map_eq_some_iff.mp hstep
      obtain ⟨m, hm, hactive, _⟩ := (h.instances context i).mp hi
      have hthere : i ∈ p.mounts := AList.lookup_isSome.mp (by rw [hm]; rfl)
      exact ⟨p, callback_ok (hcallable (h.loaded i m hm hactive)) hthere cb, h⟩

end Matching

section Runs

variable {p q : Process} {e : Event} {s : Except Crash Process}

theorem step_api (hloaded : p.api.hModule = true) (hstep : step (.ok p) e = some (.ok q)) :
    q.api = p.api := by
  cases e with
  | construct i =>
      rw [step] at hstep
      split at hstep
      · cases hstep
      · cases hstep
        rfl
  | start i c =>
      rw [step] at hstep
      split at hstep
      · cases hstep
      rename_i m _
      split at hstep
      · cases hstep
      cases hstart : start c i m p with
      | error crash =>
          rw [hstart] at hstep
          cases hstep
      | ok result =>
          rw [hstart] at hstep
          cases hstep
          exact start_api hloaded hstart
  | stop i =>
      obtain ⟨m, _, hq⟩ := Option.map_eq_some_iff.mp hstep
      cases hq
      exact stop_api
  | destroy i =>
      obtain ⟨m, _, hq⟩ := Option.map_eq_some_iff.mp hstep
      cases hq
      exact stop_api
  | callback context cb =>
      obtain ⟨i, _, hq⟩ := Option.map_eq_some_iff.mp hstep
      rw [callback] at hq
      split at hq
      · cases hq
      · split at hq
        · cases hq
        · cases hq
          rfl

/-- Where no loaded library lacks anything, there has been no crash to begin with. -/
def Kept : Except Crash Process → Prop
  | .error _ => True
  | .ok p => (p.api.hModule = true → Callable p.api) → Matched p

def Unharmed (api : Api) : Except Crash Process → Prop
  | .error _ => False
  | .ok p => p.api = api ∧ Matched p

theorem reachable_kept (h : Reachable step (fun _ _ => True) (.ok launched) s) : Kept s := by
  refine h.invariant (fun _ => launched_matched) ?_
  rintro (crash | p) e t hkept - hstep
  · cases hstep
  cases t with
  | error crash => trivial
  | ok q =>
      intro hq
      have hbefore : p.api.hModule = true → Callable p.api := by
        intro hloaded
        have hsame := step_api hloaded hstep
        exact hsame ▸ hq (hsame ▸ hloaded)
      obtain ⟨q', hq', hmatched⟩ := step_matched (hkept hbefore) hbefore hstep
      cases hq'
      exact hmatched

theorem run_unharmed (hmatched : Matched p) (hloaded : p.api.hModule = true) (hcallable : Callable p.api)
    (h : Reachable step (fun _ _ => True) (.ok p) s) : Unharmed p.api s := by
  refine h.invariant ⟨rfl, hmatched⟩ ?_
  rintro (crash | q) e t hunharmed - hstep
  · exact hunharmed.elim
  obtain ⟨hsame, hq⟩ := hunharmed
  obtain ⟨q', rfl, hmatched'⟩ := step_matched hq (fun _ => hsame ▸ hcallable) hstep
  exact ⟨(step_api (hsame ▸ hloaded) hstep).trans hsame, hmatched'⟩

theorem exists_fresh {α : Type} (a : AList fun _ : Nat => α) : ∃ n, n ∉ a := by
  obtain ⟨n, hn⟩ := Infinite.exists_notMem_finset a.keys.toFinset
  exact ⟨n, fun hmem => hn (List.mem_toFinset.mpr hmem)⟩

def willing (context : Nat) : StartCalls := ⟨none, 0, 0, context⟩

theorem start_willing {context i : Nat} (hloaded : p.api.hModule = true) :
    start (willing context) i constructed p =
      if !p.api.pointer .markDirectoryAsPlaceholder then
        .error (.nullPointer .markDirectoryAsPlaceholder)
      else if !p.api.pointer .startVirtualizing then .error (.nullPointer .startVirtualizing)
      else .ok (true, ⟨p.api, p.mounts.insert i ⟨true, some context⟩, p.instances.insert context i⟩) := by
  rw [start, show (willing context).library = none from rfl, load_loaded hloaded]
  rfl

def startedBy (context i : Nat) (p : Process) : Process :=
  ⟨p.api, (p.mounts.insert i constructed).insert i ⟨true, some context⟩, p.instances.insert context i⟩

theorem callback_startedBy {context i : Nat} {cb : Callback} {function : Export}
    (h : (cb.calls p.api).find? (fun function => !p.api.pointer function) = some function) :
    step (.ok (startedBy context i p)) (.callback context cb) =
      some (.error (.nullPointer function)) := by
  have hthere : i ∈ (startedBy context i p).mounts := AList.mem_insert _ |>.mpr (Or.inl rfl)
  rw [step, startedBy, AList.lookup_insert, Option.map_some, ← startedBy, callback,
    decide_eq_true hthere, Bool.not_true, Bool.and_false, if_neg Bool.false_ne_true,
    show (startedBy context i p).api = p.api from rfl, h]

theorem destroyed_startedBy {context i : Nat} (hstop : p.api.pointer .stopVirtualizing = false) :
    follow step (.ok (startedBy context i p)) [.destroy i, .callback context .startDirEnum] =
      some (.error .freed) := by
  have hlookup : (startedBy context i p).mounts.lookup i = some ⟨true, some context⟩ :=
    AList.lookup_insert _
  have hinstance : (startedBy context i p).instances.lookup context = some i := AList.lookup_insert _
  have hleft : stop i ⟨true, some context⟩ (startedBy context i p) = { startedBy context i p with
      mounts := (startedBy context i p).mounts.insert i ⟨false, some context⟩ } := by
    rw [stop_active rfl rfl, if_neg]
    rw [show (startedBy context i p).api = p.api from rfl, hstop]
    exact Bool.false_ne_true
  have hgone : i ∉ ((startedBy context i p).mounts.insert i ⟨false, some context⟩).erase i :=
    AList.lookup_eq_none.mp (AList.lookup_erase _ _)
  rw [follow, step, hlookup, Option.map_some, Option.bind_some, hleft, follow, step]
  dsimp only
  rw [hinstance, Option.map_some, Option.bind_some, callback, decide_eq_false hgone]
  rfl

/-- A further mount comes to a missing function, in its `start` or in a callback, or its
instance outlives it. -/
theorem crashes (hloaded : p.api.hModule = true) (hmissing : ¬Callable p.api) :
    ∃ crash, Reachable step (fun _ _ => True) (.ok p) (.error crash) := by
  obtain ⟨i, hi⟩ := exists_fresh p.mounts
  obtain ⟨context, hcontext⟩ := exists_fresh p.instances
  have hmade : Reachable step (fun _ _ => True) (.ok p)
      (.ok { p with mounts := p.mounts.insert i constructed }) :=
    Reachable.init.step (e := .construct i) trivial (if_neg hi)
  have hstep : step (.ok { p with mounts := p.mounts.insert i constructed })
      (.start i (willing context)) = some ((start (willing context) i constructed
        { p with mounts := p.mounts.insert i constructed }).map Prod.snd) := by
    rw [step, AList.lookup_insert]
    exact if_neg hcontext
  rw [start_willing (p := { p with mounts := p.mounts.insert i constructed }) hloaded] at hstep
  dsimp only at hstep
  cases hmark : p.api.pointer .markDirectoryAsPlaceholder with
  | false =>
      rw [hmark] at hstep
      exact ⟨_, hmade.step trivial hstep⟩
  | true =>
  cases hstart : p.api.pointer .startVirtualizing with
  | false =>
      rw [hmark, hstart] at hstep
      exact ⟨_, hmade.step trivial hstep⟩
  | true =>
  rw [hmark, hstart] at hstep
  have hstarted : Reachable step (fun _ _ => True) (.ok p) (.ok (startedBy context i p)) :=
    hmade.step trivial hstep
  cases hstop : p.api.pointer .stopVirtualizing with
  | false => exact ⟨_, hstarted.follow (fun _ _ _ => trivial) (destroyed_startedBy hstop)⟩
  | true =>
  cases hfill : p.api.pointer .fillDirEntryBuffer with
  | false =>
      have hcall : ((Callback.getDirEnum false true).calls p.api).find?
          (fun function => !p.api.pointer function) = some .fillDirEntryBuffer := by
        simp [Callback.calls, calling, hfill]
      exact ⟨_, hstarted.step trivial (callback_startedBy hcall)⟩
  | true =>
  cases hplaceholder : p.api.pointer .writePlaceholderInfo with
  | false =>
      have hcall : ((Callback.getPlaceholderInfo true).calls p.api).find?
          (fun function => !p.api.pointer function) = some .writePlaceholderInfo := by
        simp [Callback.calls, calling, hplaceholder]
      exact ⟨_, hstarted.step trivial (callback_startedBy hcall)⟩
  | true =>
  cases hwrite : p.api.pointer .writeFileData with
  | false =>
      cases hallocate : p.api.pointer .allocateAlignedBuffer with
      | false =>
          refine absurd ⟨hmark, hstart, hstop, hfill, hplaceholder, fun hasks => ?_⟩ hmissing
          exact absurd (hallocate.symm.trans hasks) Bool.false_ne_true
      | true =>
          have hcall : ((Callback.getFileData true true true).calls p.api).find?
              (fun function => !p.api.pointer function) = some .writeFileData := by
            simp [Callback.calls, calling, hallocate, hwrite]
          exact ⟨_, hstarted.step trivial (callback_startedBy hcall)⟩
  | true => exact absurd ⟨hmark, hstart, hstop, hfill, hplaceholder, fun _ => hwrite⟩ hmissing

end Runs

/-- The library that has been loaded decides about the process, though the calls of `start`
that come later do not look at it again: with all functions that are called, nothing that
comes crashes and Windows keeps one instance for each active mount; without one of them,
something may come that crashes. -/
theorem loaded_library_decides (p : Process)
    (h : Reachable step (fun _ _ => True) (.ok launched) (.ok p)) (hloaded : p.api.hModule = true) :
    (Callable p.api → ∀ s, Reachable step (fun _ _ => True) (.ok p) s → ∃ q, s = .ok q ∧ Matched q) ∧
      (¬Callable p.api → ∃ crash, Reachable step (fun _ _ => True) (.ok p) (.error crash)) := by
  refine ⟨fun hcallable s hs => ?_, crashes hloaded⟩
  have hunharmed := run_unharmed (reachable_kept h fun _ => hcallable) hloaded hcallable hs
  cases s with
  | error crash => exact hunharmed.elim
  | ok q => exact ⟨q, rfl, hunharmed.2⟩

def unstoppable : Export → Bool
  | .stopVirtualizing => false
  | _ => true

def refused : Process := ⟨⟨true, unstoppable⟩, AList.insert 1 constructed ∅, ∅⟩

theorem loaded_library_decides_unstoppable :
    follow step (.ok launched) [.construct 1, .start 1 ⟨some unstoppable, 0, 0, 1⟩] = some (.ok refused) ∧
      ∃ crash, Reachable step (fun _ _ => True) (.ok refused) (.error crash) := by
  have hrun : follow step (.ok launched) [.construct 1, .start 1 ⟨some unstoppable, 0, 0, 1⟩] =
    some (.ok refused) := rfl
  have hreached := Reachable.init.follow (G := fun _ _ => True) (fun _ _ _ => trivial) hrun
  exact ⟨hrun, (loaded_library_decides refused hreached rfl).2 fun h => nomatch h.stopVirtualizing⟩

end Linux2Win.Virtualization
