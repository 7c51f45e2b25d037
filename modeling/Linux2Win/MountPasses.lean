import Linux2Win.Hotplug
import Linux2Win.Passes

namespace Linux2Win.MountPasses

open Devices Reader Partitions Enumerator Mounts Passes

structure Call where
  part : PartitionInfo
  outcome : Outcome

def Call.run (c : Call) (d : Daemon) : Daemon := (mountDataPartition c.outcome c.part d).2

/-- A pass over the partitions of a family, in any order. Whether a handle and a
reader come up is fixed for each of them; whether its projection starts is not. -/
def IsPass (family : List PartitionInfo) (ready : PartitionInfo → Prop) (calls : List Call) : Prop :=
  (calls.map Call.part).Perm family ∧ ∀ c ∈ calls, (c.outcome.Ready ↔ ready c.part)

def passOf (outcome : PartitionInfo → Outcome) (parts : List PartitionInfo) : List Call :=
  parts.map fun part => ⟨part, outcome part⟩

def runAll (calls : List Call) (d : Daemon) : Daemon := calls.foldl (fun d c => c.run d) d

theorem isPass_passOf (outcome : PartitionInfo → Outcome) (parts : List PartitionInfo) :
    IsPass parts (fun part => (outcome part).Ready) (passOf outcome parts) := by
  refine ⟨?_, fun c hc => ?_⟩
  · rw [passOf, List.map_map]
    exact .of_eq (List.map_id parts)
  · obtain ⟨part, _, rfl⟩ := List.mem_map.mp hc
    rfl

section Callers

variable (outcome : PartitionInfo → Outcome) (inspect : UInt32 → Option DiskInfo) (d : Daemon)

theorem rescanAndMountAll_runAll : rescanAndMountAll outcome inspect d =
    runAll (passOf outcome (getAllMountablePartitions inspect)) d := by
  rw [rescanAndMountAll, mountAll, runAll, passOf, List.foldl_map]
  rfl

theorem monitor_runAll :
    (enumerateAllDisks inspect).foldl (fun d disk => diskEvent outcome .inserted disk d) d =
      runAll (passOf outcome (getAllMountablePartitions inspect)) d := by
  rw [← rescanAndMountAll_runAll, rescanAndMountAll, mountAll, getAllMountablePartitions,
    List.foldl_flatMap]
  rfl

end Callers

def isStart (key : MountKey) : Effect → Bool
  | .projectionStart k _ _ => k == key
  | _ => false

def startCalls (key : MountKey) (d : Daemon) : Nat := d.effects.countP (isStart key)

structure Started (family : List PartitionInfo) (ready : PartitionInfo → Prop) (d : Daemon) : Prop where
  starts : ∀ key, startCalls key d = if key ∈ d.activeMounts then 1 else 0
  mounts : ∀ key ∈ d.activeMounts, ∃ part ∈ family, ready part ∧ keyOf part = key

variable {family : List PartitionInfo} {ready : PartitionInfo → Prop}

theorem idle_started : Started family ready idle :=
  ⟨fun key => (if_neg (AList.notMem_empty key)).symm, fun key h => absurd h (AList.notMem_empty key)⟩

theorem run_started {c : Call} {d : Daemon} (hpart : c.part ∈ family)
    (hready : c.outcome.Ready ↔ ready c.part) (h : Started family ready d) :
    Started family ready (c.run d) := by
  rcases mountDataPartition_cases c.outcome c.part d with ⟨hok, hnew, mount, hrun⟩ | ⟨_, hrun⟩
  · rw [Call.run, hrun]
    refine ⟨fun key => ?_, fun key hkey => ?_⟩
    · have hstarts := h.starts key
      rw [startCalls] at hstarts ⊢
      by_cases hkey : key = keyOf c.part
      · subst hkey
        rw [if_neg hnew] at hstarts
        simp [isStart, hstarts]
      · have hne : ¬(keyOf c.part == key) = true := by rwa [beq_iff_eq, eq_comm]
        simp [isStart, hstarts, hkey, hne]
    · rcases (AList.mem_insert _).mp hkey with rfl | hkey
      · exact ⟨c.part, hpart, hready.mp hok, rfl⟩
      · exact h.mounts key hkey
  · rw [Call.run, hrun]
    exact h

def Done (c : Call) (d : Daemon) : Prop := c.outcome.Ready → keyOf c.part ∈ d.activeMounts

theorem run_done (c : Call) (d : Daemon) : Done c (c.run d) := fun hok =>
  (mountDataPartition_mem c.outcome c.part).mpr (Or.inl ⟨hok, rfl⟩)

theorem done_run (c c' : Call) (d : Daemon) (h : Done c d) : Done c (c'.run d) := fun hok =>
  (mountDataPartition_mem c'.outcome c'.part).mpr (Or.inr (h hok))

theorem kept_of_reachable {callers : List (List Call)} (hcallers : ∀ p ∈ callers, IsPass family ready p)
    {s : System Daemon Call} (hs : Reachable Call.run (IsPass family ready) ⟨idle, callers⟩ s) :
    Kept (IsPass family ready) (Started family ready) Done s := by
  refine (Kept.start idle_started hcallers).reachable (fun pass hpass c hc d => ?_) run_done done_run hs
  exact run_started (hpass.1.mem_iff.mp (List.mem_map_of_mem hc)) (hpass.2 c hc)

theorem finished_keys {s : System Daemon Call} (h : Kept (IsPass family ready) (Started family ready) Done s)
    (hend : [] ∈ s.callers) (key : MountKey) :
    key ∈ s.state.activeMounts ↔ ∃ part ∈ family, ready part ∧ keyOf part = key := by
  constructor
  · exact h.state.mounts key
  · rintro ⟨part, hpart, hready, rfl⟩
    obtain ⟨pass, hpass, hdone⟩ := h.finished hend
    obtain ⟨c, hc, rfl⟩ := List.mem_map.mp (hpass.1.mem_iff.mpr hpart)
    exact hdone c hc ((hpass.2 c hc).mpr hready)

/-- However the calls of the monitor, of the first rescan and of any later rescans
come, no projection is started twice, and once a caller is through with its pass the
mounts are those of any pass made alone. -/
theorem initial_mounts (family : List PartitionInfo) (ready : PartitionInfo → Prop)
    (monitor main : List Call) (hmonitor : IsPass family ready monitor)
    (hmain : IsPass family ready main) (s : System Daemon Call)
    (hs : Reachable Call.run (IsPass family ready) ⟨idle, [monitor, main]⟩ s) :
    (∀ key, startCalls key s.state ≤ 1) ∧
      ([] ∈ s.callers →
        (∀ key, key ∈ s.state.activeMounts ↔ ∃ part ∈ family, ready part ∧ keyOf part = key) ∧
        ∀ order, IsPass family ready order →
          ∀ key, key ∈ s.state.activeMounts ↔ key ∈ (runAll order idle).activeMounts) := by
  have hkept : Kept (IsPass family ready) (Started family ready) Done s := by
    refine kept_of_reachable (List.forall_mem_cons.mpr ⟨hmonitor, ?_⟩) hs
    exact List.forall_mem_singleton.mpr hmain
  refine ⟨fun key => ?_, fun hend => ⟨finished_keys hkept hend, fun order horder key => ?_⟩⟩
  · rw [hkept.state.starts key]
    split
    · exact le_rfl
    · exact Nat.zero_le 1
  · have halone := kept_of_reachable (List.forall_mem_singleton.mpr horder)
      (reachable_alone idle order)
    rw [finished_keys hkept hend, ← finished_keys halone List.mem_cons_self]
    rfl

def linuxPartition (partitionNumber : UInt32) : PartitionInfo :=
  layoutPartition (fun _ => []) 0 ⟨.mbr 0x83 false, 1048576, 16777216, partitionNumber⟩

def patchy (part : PartitionInfo) : Outcome :=
  if part.partitionNumber = 2 then ⟨fun _ => true, none, nofun, true⟩ else Hotplug.mounting part

def patchyCall (partitionNumber : UInt32) : Call :=
  ⟨linuxPartition partitionNumber, patchy (linuxPartition partitionNumber)⟩

def linuxParts : List PartitionInfo := [linuxPartition 1, linuxPartition 2]

/-- The monitor and the rescan go through the partitions in opposite orders. -/
theorem initial_mounts_patchy :
    let d := (patchyCall 1).run ((patchyCall 2).run ((patchyCall 1).run idle))
    (∀ key, startCalls key d ≤ 1) ∧
      ∀ key, key ∈ d.activeMounts ↔
        key ∈ (runAll [patchyCall 2, patchyCall 1] idle).activeMounts := by
  have hmonitor : IsPass linuxParts (fun part => (patchy part).Ready)
      [patchyCall 1, patchyCall 2] := isPass_passOf patchy linuxParts
  have hmain : IsPass linuxParts (fun part => (patchy part).Ready)
      [patchyCall 2, patchyCall 1] := by
    obtain ⟨hperm, hready⟩ := isPass_passOf patchy [linuxPartition 2, linuxPartition 1]
    exact ⟨hperm.trans (.swap _ _ _), hready⟩
  have hreach : Reachable Call.run (IsPass linuxParts fun part => (patchy part).Ready)
      ⟨idle, [[patchyCall 1, patchyCall 2], [patchyCall 2, patchyCall 1]]⟩
      ⟨(patchyCall 1).run ((patchyCall 2).run ((patchyCall 1).run idle)), [[patchyCall 2], []]⟩ :=
    .head (.turn _ [] _ _ _)
      (.head (.turn _ [[patchyCall 2]] _ _ _) (.head (.turn _ [[patchyCall 2]] _ _ _) .refl))
  obtain ⟨hstarts, hends⟩ := initial_mounts linuxParts (fun part => (patchy part).Ready)
    [patchyCall 1, patchyCall 2] [patchyCall 2, patchyCall 1] hmonitor hmain _ hreach
  obtain ⟨_, horder⟩ := hends (List.mem_cons_of_mem _ List.mem_cons_self)
  exact ⟨hstarts, horder _ hmain⟩

end Linux2Win.MountPasses
