import Linux2Win.DirEnum
import Linux2Win.MountPasses

namespace Linux2Win.MountFailures

open Reader Partitions Enumerator DirEnum Mounts MountPasses Runs

/-- What `start` meets: whether the library loads, and what its two calls return. -/
structure ProjFsApi where
  loads : Bool
  markDirectoryAsPlaceholder : HResult
  startVirtualizing : HResult

def errorAlreadyExists : HResult := hresultFromWin32 183

/-- `start` with the `active_` it finds, to what it returns and the `active_` it leaves.
Whether the directory can be made is not looked at. -/
def start (api : ProjFsApi) (active : Bool) : Bool × Bool :=
  if active then (true, active)
  else if !api.loads then (false, active)
  else if failed api.markDirectoryAsPlaceholder &&
      api.markDirectoryAsPlaceholder != errorAlreadyExists then (false, active)
  else if failed api.startVirtualizing then (false, active)
  else (true, true)

structure Attempt where
  createFile : Bool → Bool
  reader : Option Ext4Reader
  reader_mounted : ∀ rd, reader = some rd → rd.mounted = true
  api : ProjFsApi

def Attempt.outcome (a : Attempt) : Outcome :=
  ⟨a.createFile, a.reader, a.reader_mounted, (start a.api false).1⟩

inductive Op
  | mount (part : PartitionInfo) (attempt : Attempt)
  | unmount (key : MountKey)
  | close

/-- The end of the daemon, which shows no notification. -/
def closeAll (d : Daemon) : Daemon :=
  ⟨∅, d.effects ++ (d.activeMounts.keys.insertionSort keyLe).flatMap fun key =>
    match d.activeMounts.lookup key with
    | none => []
    | some mount => if mount.projfsActive then [.projectionStopped mount.mountDir] else []⟩

def step (d : Daemon) : Op → Daemon
  | .mount part attempt => (mountDataPartition attempt.outcome part d).2
  | .unmount key => unmountDataPartition key d
  | .close => closeAll d

def run (d : Daemon) (ops : List Op) : Daemon := ops.foldl step d

def isNotice : Effect → Bool
  | .notifiedMounted _ _ => true
  | .projectionStart _ _ _ | .projectionStopped _ | .notifiedUnmounted _ => false

def notices (d : Daemon) : List Effect := d.effects.filter isNotice

def ProjFsApi.Projects (api : ProjFsApi) : Prop :=
  api.loads = true ∧
    (failed api.markDirectoryAsPlaceholder = false ∨
      api.markDirectoryAsPlaceholder = errorAlreadyExists) ∧
    failed api.startVirtualizing = false

def Attempt.Fails (a : Attempt) : Prop := ¬(a.outcome.Ready ∧ a.api.Projects)

/-- A failed attempt returns false, and shows and records nothing. -/
def LeavesNoTrace (a : Attempt) (part : PartitionInfo) (d : Daemon) : Prop :=
  keyOf part ∉ d.activeMounts → a.Fails →
    (mountDataPartition a.outcome part d).1 = false ∧
      (mountDataPartition a.outcome part d).2.activeMounts = d.activeMounts ∧
      notices (mountDataPartition a.outcome part d).2 = notices d

def Op.Mounts (key : MountKey) : Op → Prop
  | .mount part _ => keyOf part = key
  | .unmount _ | .close => False

/-- Until another attempt is made, a failed partition does not count as mounted, and so
the next rescan tries it. -/
def TriedAgain (a : Attempt) (part : PartitionInfo) (d : Daemon) : Prop :=
  keyOf part ∉ d.activeMounts → a.Fails →
    ∀ later : List Op, (∀ op ∈ later, ¬op.Mounts (keyOf part)) →
      keyOf part ∉ (run (mountDataPartition a.outcome part d).2 later).activeMounts

def AllActive (d : Daemon) : Prop :=
  ∀ key mount, d.activeMounts.lookup key = some mount → mount.projfsActive = true

def StartsIfReached (a : Attempt) (part : PartitionInfo) (d : Daemon) : Prop :=
  keyOf part ∉ d.activeMounts → a.outcome.Ready → a.api.Projects

def Op.StartsIfReached (d : Daemon) : Op → Prop
  | .mount part attempt => MountFailures.StartsIfReached attempt part d
  | .unmount _ | .close => True

theorem start_active (api : ProjFsApi) (active : Bool) :
    (start api active).1 = (start api active).2 := by
  unfold start
  cases active
  · simp only [Bool.false_eq_true, if_false]
    split_ifs <;> rfl
  · rfl

theorem start_true_iff (api : ProjFsApi) : (start api false).1 = true ↔ api.Projects := by
  unfold start ProjFsApi.Projects
  cases api.loads
  · simp
  · by_cases hmark : api.markDirectoryAsPlaceholder = errorAlreadyExists
    · cases failed api.startVirtualizing <;> simp [hmark]
    · cases failed api.markDirectoryAsPlaceholder <;> cases failed api.startVirtualizing <;>
        simp [hmark]

section Calls

variable {a : Attempt} {part : PartitionInfo} {d : Daemon}

theorem lookup_mounted {key key' : MountKey} {mount mount' : ActiveMount}
    (h : (d.activeMounts.insert key mount).lookup key' = some mount') :
    key' = key ∧ mount' = mount ∨ d.activeMounts.lookup key' = some mount' := by
  by_cases hkey : key' = key
  · subst hkey
    rw [AList.lookup_insert] at h
    exact Or.inl ⟨rfl, (Option.some.inj h).symm⟩
  · rw [AList.lookup_insert_ne hkey] at h
    exact Or.inr h

theorem mount_reached (hok : a.outcome.Ready) (hnew : keyOf part ∉ d.activeMounts) :
    ∃ mount : ActiveMount, (mount.projfsActive = true ↔ a.api.Projects) ∧
      (mountDataPartition a.outcome part d).1 = true ∧
      (mountDataPartition a.outcome part d).2.activeMounts =
        d.activeMounts.insert (keyOf part) mount := by
  obtain ⟨mount, hactive, hrun⟩ := mountDataPartition_ready hok hnew
  refine ⟨mount, ?_, congrArg Prod.fst hrun, congrArg (fun r => r.2.activeMounts) hrun⟩
  rw [hactive]
  exact start_true_iff a.api

theorem leavesNoTrace_iff : LeavesNoTrace a part d ↔ StartsIfReached a part d := by
  constructor
  · intro h hnew hok
    by_contra hfails
    obtain ⟨_, _, hresult, _⟩ := mount_reached hok hnew
    have hfalse := (h hnew fun hall => hfails hall.2).1
    cases hresult.symm.trans hfalse
  · intro h hnew hfails
    have hno : ¬a.outcome.Ready := fun hok => hfails ⟨hok, h hnew hok⟩
    rw [mountDataPartition_unready hno hnew]
    exact ⟨rfl, rfl, rfl⟩

theorem step_new {key : MountKey} {op : Op} (hop : ¬op.Mounts key) (hnew : key ∉ d.activeMounts) :
    key ∉ (step d op).activeMounts := by
  cases op with
  | mount part attempt =>
      intro hmem
      rcases (mountDataPartition_mem attempt.outcome part).mp hmem with ⟨_, rfl⟩ | hmem
      · exact hop rfl
      · exact hnew hmem
  | unmount gone => exact fun hmem => hnew (unmountDataPartition_keys.mp hmem).2
  | close => exact AList.notMem_empty key

theorem run_new {key : MountKey} {ops : List Op} (hops : ∀ op ∈ ops, ¬op.Mounts key)
    (hnew : key ∉ d.activeMounts) : key ∉ (run d ops).activeMounts := by
  induction ops generalizing d with
  | nil => exact hnew
  | cons op ops ih =>
      obtain ⟨hop, hops⟩ := List.forall_mem_cons.mp hops
      exact ih hops (step_new hop hnew)

theorem triedAgain_iff : TriedAgain a part d ↔ StartsIfReached a part d := by
  constructor
  · intro h hnew hok
    by_contra hfails
    obtain ⟨mount, _, _, hmounts⟩ := mount_reached hok hnew
    refine h hnew (fun hall => hfails hall.2) [] (List.forall_mem_nil _) ?_
    rw [run, List.foldl_nil, hmounts]
    exact (AList.mem_insert _).mpr (Or.inl rfl)
  · intro h hnew hfails later hlater
    apply run_new hlater
    rwa [(leavesNoTrace_iff.mpr h hnew hfails).2.1]

theorem idle_allActive : AllActive idle := by
  intro key mount hlookup
  cases hlookup

theorem unmount_allActive (h : AllActive d) (key : MountKey) :
    AllActive (unmountDataPartition key d) := by
  rw [unmountDataPartition]
  split
  · exact h
  · intro key' mount hlookup
    by_cases hkey : key' = key
    · subst hkey
      rw [AList.lookup_erase] at hlookup
      cases hlookup
    · rw [AList.lookup_erase_ne hkey] at hlookup
      exact h key' mount hlookup

theorem step_allActive (h : AllActive d) (op : Op) :
    AllActive (step d op) ↔ op.StartsIfReached d := by
  cases op with
  | mount part attempt =>
      by_cases hmem : keyOf part ∈ d.activeMounts
      · rw [step, mountDataPartition_mounted _ hmem]
        exact iff_of_true h fun hnew => absurd hmem hnew
      by_cases hok : attempt.outcome.Ready
      · obtain ⟨mount, hactive, _, hmounts⟩ := mount_reached hok hmem
        rw [step, AllActive, hmounts]
        constructor
        · exact fun hall _ _ => hactive.mp (hall _ _ (AList.lookup_insert _))
        · intro hstarts key mount' hlookup
          rcases lookup_mounted hlookup with ⟨rfl, rfl⟩ | hlookup
          · exact hactive.mpr (hstarts hmem hok)
          · exact h key mount' hlookup
      · rw [step, mountDataPartition_unready hok hmem]
        exact iff_of_true h fun _ hready => absurd hready hok
  | unmount key => exact iff_of_true (unmount_allActive h key) trivial
  | close =>
      refine iff_of_true (fun key mount hlookup => ?_) trivial
      cases hlookup

end Calls

section Callers

variable (attempt : PartitionInfo → Attempt) (d : Daemon)

theorem mountAll_run (parts : List PartitionInfo) :
    mountAll (fun part => (attempt part).outcome) parts d =
      run d (parts.map fun part => .mount part (attempt part)) := by
  rw [mountAll, run, List.foldl_map]
  rfl

theorem unmountAll_run (diskIndex : UInt32) :
    unmountAllPartitionsForDisk diskIndex d =
      run d (((d.activeMounts.keys.filter (·.1 == diskIndex)).insertionSort keyLe).map .unmount) := by
  rw [unmountAllPartitionsForDisk, run, List.foldl_map]
  rfl

theorem windowProc_run (disks : List DiskInfo) (msg : WindowMessage) :
    ∃ ops, windowProc (fun part => (attempt part).outcome) disks msg d = run d ops := by
  rw [windowProc]
  split
  · exact ⟨[], rfl⟩
  · rename_i type _
    induction disks generalizing d with
    | nil => exact ⟨[], rfl⟩
    | cons disk disks ih =>
        have hdisk : ∃ ops, diskEvent (fun part => (attempt part).outcome) type disk d = run d ops := by
          cases type with
          | inserted => exact ⟨_, mountAll_run attempt d _⟩
          | removed => exact ⟨_, unmountAll_run d _⟩
        obtain ⟨ops, hops⟩ := hdisk
        obtain ⟨ops', hops'⟩ := ih (run d ops)
        refine ⟨ops ++ ops', ?_⟩
        rw [List.foldl_cons, hops, hops', run, run, run, List.foldl_append]

end Callers

/-- A failed attempt leaves no trace and is made again exactly if it is not the
projection that fails; the mounts stay active in exactly the runs in which no
projection fails. -/
theorem failed_mount_iff (a : Attempt) (part : PartitionInfo) (d : Daemon) (ops : List Op) :
    (LeavesNoTrace a part d ↔ StartsIfReached a part d) ∧
      (TriedAgain a part d ↔ StartsIfReached a part d) ∧
      (Always step AllActive idle ops ↔ Each step Op.StartsIfReached idle ops) := by
  refine ⟨leavesNoTrace_iff, triedAgain_iff, ?_⟩
  have hkept : ∀ d op, True → True → AllActive d → (AllActive (step d op) ↔ op.StartsIfReached d) :=
    fun _ op _ _ h => step_allActive h op
  exact always_iff_each step (fun _ _ _ _ => trivial) hkept trivial idle_allActive
    (each_of_forall step fun _ _ => trivial)

def disabled : Attempt where
  createFile := fun _ => true
  reader := some (plainReader 16)
  reader_mounted := (Hotplug.mounting (linuxPartition 1)).reader_mounted
  api := ⟨false, 0, 0⟩

def enabled : Attempt := { disabled with api := ⟨true, 0, 0⟩ }

/-- The mount is recorded and shown without a projection, and stands in the way of
the next attempt. -/
theorem disabled_projection_recorded :
    disabled.Fails ∧ (mountDataPartition disabled.outcome (linuxPartition 1) idle).1 = true ∧
      notices (mountDataPartition disabled.outcome (linuxPartition 1) idle).2 =
        [.notifiedMounted (0, 1) (getMountDirForPartition (linuxPartition 1))] ∧
      mountDataPartition enabled.outcome (linuxPartition 1)
          (mountDataPartition disabled.outcome (linuxPartition 1) idle).2 =
        (true, (mountDataPartition disabled.outcome (linuxPartition 1) idle).2) ∧
      ¬LeavesNoTrace disabled (linuxPartition 1) idle ∧ ¬TriedAgain disabled (linuxPartition 1) idle ∧
      ¬Always step AllActive idle [.mount (linuxPartition 1) disabled] := by
  have hmissed : ¬StartsIfReached disabled (linuxPartition 1) idle := fun h =>
    absurd (h (AList.notMem_empty _) ⟨rfl, rfl⟩).1 Bool.false_ne_true
  have hmem : keyOf (linuxPartition 1) ∈
      (mountDataPartition disabled.outcome (linuxPartition 1) idle).2.activeMounts :=
    (mountDataPartition_mem _ _).mpr (Or.inl ⟨⟨rfl, rfl⟩, rfl⟩)
  refine ⟨fun h => absurd h.2.1 Bool.false_ne_true, by decide +kernel, by decide +kernel,
    mountDataPartition_mounted _ hmem, fun h => hmissed (leavesNoTrace_iff.mp h),
    fun h => hmissed (triedAgain_iff.mp h), fun h => ?_⟩
  exact hmissed ((step_allActive idle_allActive _).mp h.2)

end Linux2Win.MountFailures
