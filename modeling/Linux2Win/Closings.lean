import Linux2Win.MountFailures

namespace Linux2Win.Closings

open Devices Partitions Enumerator Mounts MountPasses MountFailures Runs

inductive Handler
  | waiting | cleared | stopping | returned
  deriving DecidableEq, Repr

structure System where
  daemon : Daemon
  handler : Handler
  monitorRuns : Bool

def launched : System := ⟨idle, .waiting, true⟩

/-- The steps of the two threads. Each call that holds the mount mutex is one step: a mount
of the window thread's rescans, a mount of an `Inserted` callback, an unmount of a
`Removed` callback, and the clearing. -/
inductive Event
  | rescanned (part : PartitionInfo) (attempt : Attempt)
  | inserted (part : PartitionInfo) (attempt : Attempt)
  | removed (key : MountKey)
  | left
  | clear
  | stop
  | join

def step (s : System) : Event → System
  | .rescanned part attempt | .inserted part attempt =>
    { s with daemon := MountFailures.step s.daemon (.mount part attempt) }
  | .removed key => { s with daemon := MountFailures.step s.daemon (.unmount key) }
  | .left => { s with monitorRuns := false }
  | .clear => { s with daemon := MountFailures.step s.daemon .close, handler := .cleared }
  | .stop => { s with handler := .stopping }
  | .join => { s with handler := .returned }

/-- When a thread can take a step. While the handler is at work, the disks that arrive are
those of `Inserted` callbacks. -/
def Enabled (s : System) : Event → Prop
  | .rescanned _ _ | .clear => s.handler = .waiting
  | .inserted _ _ | .left => s.monitorRuns = true
  | .removed _ => s.monitorRuns = true ∧ s.handler = .waiting
  | .stop => s.handler = .cleared
  | .join => s.handler = .stopping ∧ s.monitorRuns = false

def run (s : System) (es : List Event) : System := es.foldl step s

def isStart (dir : List UInt16) : Effect → Bool
  | .projectionStart _ mountDir started => started && mountDir == dir
  | .projectionStopped _ | .notifiedMounted _ _ | .notifiedUnmounted _ => false

def starts (dir : List UInt16) (d : Daemon) : Nat := d.effects.countP (isStart dir)

def stops (dir : List UInt16) (d : Daemon) : Nat := d.effects.count (.projectionStopped dir)

def projects (dir : List UInt16) (mount : ActiveMount) : Bool :=
  mount.projfsActive && mount.mountDir == dir

def held (dir : List UInt16) (d : Daemon) : Nat :=
  d.activeMounts.entries.countP fun e => projects dir e.2

/-- Nothing is mounted, and every projection that was started has been stopped. -/
def Clean (d : Daemon) : Prop := d.activeMounts.entries = [] ∧ ∀ dir, starts dir d = stops dir d

/-- A mount of an `Inserted` callback comes before the clearing, or it fails on its device
or its reader. -/
def Timely (s : System) : Event → Prop
  | .inserted _ attempt => s.handler = .waiting ∨ ¬attempt.outcome.Ready
  | _ => True

/-- Every start is matched by a stop, or by an active mount of the table. -/
def Balanced (d : Daemon) : Prop := ∀ dir, starts dir d = stops dir d + held dir d

section Balance

variable {d : Daemon}

theorem Balanced.clean_iff (h : Balanced d) : Clean d ↔ d.activeMounts.entries = [] := by
  refine ⟨And.left, fun hempty => ⟨hempty, fun dir => ?_⟩⟩
  rw [h dir, held, hempty]
  rfl

theorem idle_balanced : Balanced idle := fun _ => rfl

variable (dir : List UInt16)

theorem starts_append (mounts : AList fun _ : MountKey => ActiveMount) (effects new : List Effect) :
    starts dir ⟨mounts, effects ++ new⟩ = effects.countP (isStart dir) + new.countP (isStart dir) :=
  List.countP_append

theorem stops_append (mounts : AList fun _ : MountKey => ActiveMount) (effects new : List Effect) :
    stops dir ⟨mounts, effects ++ new⟩ =
      effects.count (.projectionStopped dir) + new.count (.projectionStopped dir) :=
  List.count_append

theorem mount_effects (key : MountKey) (mount : ActiveMount) :
    [Effect.projectionStart key mount.mountDir mount.projfsActive,
        .notifiedMounted key mount.mountDir].countP (isStart dir) =
      (if projects dir mount then 1 else 0) ∧
    [Effect.projectionStart key mount.mountDir mount.projfsActive,
        .notifiedMounted key mount.mountDir].count (.projectionStopped dir) = 0 := by
  simp [isStart, projects, List.countP_cons]

def stopEffects (mount : ActiveMount) : List Effect :=
  if mount.projfsActive then [.projectionStopped mount.mountDir] else []

theorem stop_effects (mount : ActiveMount) : (stopEffects mount).countP (isStart dir) = 0 ∧
    (stopEffects mount).count (.projectionStopped dir) = if projects dir mount then 1 else 0 := by
  rw [stopEffects, projects]
  cases mount.projfsActive <;> simp [isStart, List.count_cons]

theorem mount_balanced (h : Balanced d) (o : Outcome) (part : PartitionInfo) :
    Balanced (mountDataPartition o part d).2 := by
  rw [mountDataPartition]
  split
  · exact h
  · rename_i hnew
    split
    · rename_i device reader _ _
      intro dir
      have hdir := h dir
      obtain ⟨hstarts, hstops⟩ := mount_effects dir (keyOf part)
        ⟨part, getMountDirForPartition part, device, reader, o.projfsStarts⟩
      rw [starts_append, stops_append, hstarts, hstops, held, AList.entries_insert_of_notMem hnew,
        List.countP_cons]
      rw [starts, stops, held] at hdir
      dsimp only
      omega
    · exact h

theorem unmount_balanced (h : Balanced d) (key : MountKey) : Balanced (unmountDataPartition key d) := by
  rw [unmountDataPartition]
  split
  · exact h
  · rename_i mount hlookup
    have hmem : key ∈ d.activeMounts.entries.keys :=
      AList.lookup_isSome.mp (by rw [hlookup]; rfl)
    obtain ⟨mount', before, after, _, hentries, herase⟩ := List.exists_of_kerase hmem
    obtain rfl : mount' = mount := by
      have : ⟨key, mount'⟩ ∈ d.activeMounts.entries := by rw [hentries]; simp
      exact Option.some.inj ((AList.mem_lookup_iff.mpr this).symm.trans hlookup)
    intro dir
    have hdir := h dir
    obtain ⟨hstarts, hstops⟩ := stop_effects dir mount'
    rw [List.append_assoc, starts_append, stops_append, held]
    change _ + (stopEffects mount' ++ _).countP _ = _ + (stopEffects mount' ++ _).count _ +
      (d.activeMounts.entries.kerase key).countP _
    rw [starts, stops, held, hentries] at hdir
    rw [herase, List.countP_append, List.count_append, hstarts, hstops]
    rw [List.countP_append, List.countP_cons] at hdir
    dsimp only at hdir
    rw [List.countP_append]
    have hnotice : [Effect.notifiedUnmounted key].countP (isStart dir) = 0 ∧
        [Effect.notifiedUnmounted key].count (.projectionStopped dir) = 0 := by
      simp [isStart]
    rw [hnotice.1, hnotice.2]
    omega

theorem stop_all_effects (entries : List (Sigma fun _ : MountKey => ActiveMount)) :
    (entries.flatMap fun e => stopEffects e.2).countP (isStart dir) = 0 ∧
      (entries.flatMap fun e => stopEffects e.2).count (.projectionStopped dir) =
        entries.countP fun e => projects dir e.2 := by
  induction entries with
  | nil => exact ⟨rfl, rfl⟩
  | cons e entries ih =>
      obtain ⟨hstarts, hstops⟩ := stop_effects dir e.2
      rw [List.flatMap_cons, List.countP_append, List.count_append, List.countP_cons, hstarts, hstops,
        ih.1, ih.2]
      exact ⟨rfl, Nat.add_comm _ _⟩

theorem closeAll_eq (d : Daemon) : closeAll d = ⟨∅, d.effects ++
    (d.activeMounts.keys.insertionSort keyLe).flatMap fun key =>
      (d.activeMounts.lookup key).elim [] stopEffects⟩ := by
  rw [closeAll]
  congr 3
  funext key
  cases d.activeMounts.lookup key <;> rfl

/-- The clearing goes through the keys in their order and meets every mount once. -/
theorem close_clean (h : Balanced d) : Clean (closeAll d) := by
  rw [closeAll_eq]
  refine ⟨rfl, fun dir => ?_⟩
  have hdir := h dir
  have hperm := (List.perm_insertionSort keyLe d.activeMounts.keys).flatMap_right fun key =>
    (d.activeMounts.lookup key).elim [] stopEffects
  have hkeys : (d.activeMounts.keys.flatMap fun key =>
      (d.activeMounts.lookup key).elim [] stopEffects) =
        d.activeMounts.entries.flatMap fun e => stopEffects e.2 := by
    rw [AList.keys, List.keys, List.flatMap_map]
    apply List.flatMap_congr
    intro e he
    rw [AList.mem_lookup_iff.mpr he]
    rfl
  rw [hkeys] at hperm
  obtain ⟨hstarts, hstops⟩ := stop_all_effects dir d.activeMounts.entries
  rw [starts_append, stops_append, hperm.countP_eq, hperm.count_eq, hstarts, hstops]
  exact hdir

end Balance

section Callers

variable (attempt : PartitionInfo → Attempt) (s : System)

theorem inserted_run (disk : DiskInfo) :
    run s ((mountablePartitions disk).map fun part => .inserted part (attempt part)) =
      { s with
        daemon := diskEvent (fun part => (attempt part).outcome) .inserted disk s.daemon } := by
  rw [diskEvent]
  generalize mountablePartitions disk = parts
  induction parts generalizing s with
  | nil => rfl
  | cons part parts ih => exact ih _

theorem rescanned_run (inspect : UInt32 → Option DiskInfo) :
    run s ((getAllMountablePartitions inspect).map fun part => .rescanned part (attempt part)) =
      { s with
        daemon := rescanAndMountAll (fun part => (attempt part).outcome) inspect s.daemon } := by
  rw [rescanAndMountAll]
  generalize getAllMountablePartitions inspect = parts
  induction parts generalizing s with
  | nil => rfl
  | cons part parts ih => exact ih _

end Callers

section Runs

variable {s : System} {e : Event} {es : List Event}

theorem step_balanced (h : Balanced s.daemon) : Balanced (step s e).daemon := by
  cases e with
  | rescanned part attempt | inserted part attempt => exact mount_balanced h _ _
  | removed key => exact unmount_balanced h key
  | left | stop | join => exact h
  | clear =>
      intro dir
      obtain ⟨hempty, hstopped⟩ := close_clean h
      rw [held]
      exact hstopped dir

theorem run_balanced (h : Balanced s.daemon) : Balanced (run s es).daemon := by
  induction es generalizing s with
  | nil => exact h
  | cons e es ih => exact ih (step_balanced h)

theorem mount_leaves_empty (o : Outcome) (part : PartitionInfo) (d : Daemon) :
    (mountDataPartition o part d).2.activeMounts.entries = [] ↔
      d.activeMounts.entries = [] ∧ ¬o.Ready := by
  rcases mountDataPartition_cases o part d with ⟨hok, hnew, mount, hrun⟩ | ⟨hmem, hrun⟩
  · rw [hrun]
    dsimp only
    rw [AList.entries_insert_of_notMem hnew]
    exact iff_of_false (List.cons_ne_nil _ _) fun h => h.2 hok
  · rw [hrun]
    refine ⟨fun hempty => ⟨hempty, fun hok => ?_⟩, And.left⟩
    have hkey := AList.mem_keys.mp (hmem hok)
    rw [AList.keys, hempty] at hkey
    cases hkey

/-- From the clearing on, the table stays empty exactly while every mount is timely. -/
theorem late_step (hlate : s.handler ≠ .waiting) (henabled : Enabled s e) :
    (step s e).handler ≠ .waiting ∧ ((step s e).daemon.activeMounts.entries = [] ↔
      s.daemon.activeMounts.entries = [] ∧ Timely s e) := by
  cases e with
  | inserted part attempt =>
      refine ⟨hlate, (mount_leaves_empty _ _ _).trans (and_congr_right fun _ => ?_)⟩
      exact (or_iff_right hlate).symm
  | rescanned part attempt | clear => exact absurd henabled hlate
  | removed key => exact absurd henabled.2 hlate
  | left => exact ⟨hlate, (and_iff_left trivial).symm⟩
  | stop | join => exact ⟨nofun, (and_iff_left trivial).symm⟩

theorem late_run (hlate : s.handler ≠ .waiting) (henabled : Each step Enabled s es) :
    (run s es).daemon.activeMounts.entries = [] ↔
      s.daemon.activeMounts.entries = [] ∧ Each step Timely s es := by
  induction es generalizing s with
  | nil => exact (and_iff_left trivial).symm
  | cons e es ih =>
      obtain ⟨hnext, hstep⟩ := late_step hlate henabled.1
      exact ((ih hnext henabled.2).trans (and_congr_left' hstep)).trans and_assoc

theorem run_clean_iff (hwaiting : s.handler = .waiting) (h : Balanced s.daemon)
    (henabled : Each step Enabled s es) (hreturned : (run s es).handler = .returned) :
    Clean (run s es).daemon ↔ Each step Timely s es := by
  induction es generalizing s with
  | nil => cases hwaiting.symm.trans hreturned
  | cons e es ih =>
      have hnext := fun hstill => ih (s := step s e) hstill (step_balanced h) henabled.2 hreturned
      cases e with
      | clear =>
          have hcleared : (step s .clear).handler ≠ .waiting := nofun
          refine (run_balanced h).clean_iff.trans ((late_run hcleared henabled.2).trans ?_)
          exact (and_iff_right (close_clean h).1).trans (and_iff_right trivial).symm
      | inserted part attempt =>
          exact (hnext hwaiting).trans (and_iff_right (Or.inl hwaiting)).symm
      | rescanned part attempt | removed key | left =>
          exact (hnext hwaiting).trans (and_iff_right trivial).symm
      | stop => cases hwaiting.symm.trans henabled.1
      | join => cases hwaiting.symm.trans henabled.1.1

end Runs

/-- When the handling of `WM_CLOSE` has returned, nothing is mounted and every projection
has been stopped, exactly if no mount of the monitor has come through after the clearing:
the handler clears the table before it stops the monitor. -/
theorem closed_clean_iff (es : List Event) (henabled : Each step Enabled launched es)
    (hreturned : (run launched es).handler = .returned) :
    Clean (run launched es).daemon ↔ Each step Timely launched es :=
  run_clean_iff rfl idle_balanced henabled hreturned

def earlyArrival : List Event :=
  [.inserted (linuxPartition 1) enabled, .clear, .stop, .left, .join]

theorem closed_clean_early :
    Clean (run launched earlyArrival).daemon ↔ Each step Timely launched earlyArrival :=
  closed_clean_iff earlyArrival ⟨rfl, rfl, rfl, rfl, ⟨rfl, rfl⟩, trivial⟩ rfl

def lateArrival : List Event :=
  [.clear, .inserted (linuxPartition 1) enabled, .stop, .left, .join]

theorem late_arrival_stays_mounted :
    Each step Enabled launched lateArrival ∧ (run launched lateArrival).handler = .returned ∧
      (run launched lateArrival).daemon.activeMounts.keys = [(0, 1)] ∧
      starts (getMountDirForPartition (linuxPartition 1)) (run launched lateArrival).daemon = 1 ∧
      stops (getMountDirForPartition (linuxPartition 1)) (run launched lateArrival).daemon = 0 ∧
      ¬Clean (run launched lateArrival).daemon := by
  have hkeys : (run launched lateArrival).daemon.activeMounts.keys = [(0, 1)] := by decide +kernel
  refine ⟨⟨rfl, rfl, rfl, rfl, ⟨rfl, rfl⟩, trivial⟩, rfl, hkeys, by decide +kernel,
    by decide +kernel, fun h => ?_⟩
  rw [AList.keys, h.1] at hkeys
  cases hkeys

end Linux2Win.Closings
