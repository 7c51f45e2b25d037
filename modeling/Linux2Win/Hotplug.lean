import Linux2Win.Mounts
import Linux2Win.Runs

namespace Linux2Win.Hotplug

open Bytes Partitions Enumerator Mounts Runs

structure AttachedDisk where
  diskIndex : UInt32
  drive : PhysicalDrive

inductive Change
  | arrival (disk : AttachedDisk)
  | removal (diskIndex : UInt32)

/-- A change of the attached disks, with the outcome of any mount tried for it. -/
structure Event where
  change : Change
  outcome : PartitionInfo → Outcome

structure Machine where
  attached : List AttachedDisk
  daemon : Daemon

def Change.apply : Change → List AttachedDisk → List AttachedDisk
  | .arrival disk, attached => disk :: attached
  | .removal diskIndex, attached => attached.filter (·.diskIndex != diskIndex)

/-- What Windows sends for the change. It does not say which disk has changed. -/
def Change.message : Change → WindowMessage
  | .arrival _ => ⟨wmDeviceChange, dbtDeviceArrival, some dbtDevtypDeviceInterface⟩
  | .removal _ => ⟨wmDeviceChange, dbtDeviceRemoveComplete, some dbtDevtypDeviceInterface⟩

def Succeeds (outcome : PartitionInfo → Outcome) : Prop :=
  ∀ part, isMountable part = true → (outcome part).Ready

section Machines

variable (toUtf8 : List UInt16 → List Byte) (enumerate : List AttachedDisk → List DiskInfo)

def AttachedDisk.info (disk : AttachedDisk) : DiskInfo := inspectDisk toUtf8 disk.drive disk.diskIndex

def AttachedDisk.mountableKeys (disk : AttachedDisk) : List MountKey :=
  (mountablePartitions (disk.info toUtf8)).map keyOf

def Exact : Prop :=
  ∀ attached info, info ∈ enumerate attached ↔ ∃ disk ∈ attached, disk.info toUtf8 = info

def step (m : Machine) (e : Event) : Machine :=
  let attached := e.change.apply m.attached
  ⟨attached, windowProc e.outcome (enumerate attached) e.change.message m.daemon⟩

def started (attached : List AttachedDisk) (outcome : PartitionInfo → Outcome) : Machine :=
  ⟨attached, (enumerate attached).foldl (fun d disk => diskEvent outcome .inserted disk d) idle⟩

/-- The mounts are those of the mountable partitions of the attached disks. -/
def Correct (m : Machine) : Prop :=
  ∀ key, key ∈ m.daemon.activeMounts ↔ ∃ disk ∈ m.attached, key ∈ disk.mountableKeys toUtf8

def NothingMountable (m : Machine) (e : Event) : Prop :=
  match e.change with
  | .arrival _ => True
  | .removal _ => ∀ disk ∈ m.attached, mountablePartitions (disk.info toUtf8) = []

variable {toUtf8 enumerate} {m : Machine} {outcome : PartitionInfo → Outcome}

theorem step_arrival (disk : AttachedDisk) :
    (step enumerate m ⟨.arrival disk, outcome⟩).daemon = (enumerate (disk :: m.attached)).foldl
      (fun d disk => diskEvent outcome .inserted disk d) m.daemon := rfl

theorem step_removal (diskIndex : UInt32) :
    (step enumerate m ⟨.removal diskIndex, outcome⟩).daemon =
      (enumerate (m.attached.filter (·.diskIndex != diskIndex))).foldl
        (fun d disk => diskEvent outcome .removed disk d) m.daemon := rfl

theorem mountableKeys_fst {disk : AttachedDisk} {key : MountKey}
    (h : key ∈ disk.mountableKeys toUtf8) : key.1 = disk.diskIndex := by
  obtain ⟨part, hpart, rfl⟩ := List.mem_map.mp h
  exact inspectDisk_partition_diskIndex (List.mem_of_mem_filter hpart)

theorem inserted_all_keys (hexact : Exact toUtf8 enumerate) (hok : Succeeds outcome)
    {attached : List AttachedDisk} {d : Daemon} {key : MountKey} :
    key ∈ ((enumerate attached).foldl
        (fun d disk => diskEvent outcome .inserted disk d) d).activeMounts ↔
      (∃ disk ∈ attached, key ∈ disk.mountableKeys toUtf8) ∨ key ∈ d.activeMounts := by
  rw [foldl_inserted_keys fun disk _ part hpart => hok part (List.of_mem_filter hpart)]
  refine or_congr_left ⟨?_, ?_⟩
  · rintro ⟨info, hinfo, hkey⟩
    obtain ⟨disk, hdisk, rfl⟩ := (hexact attached info).mp hinfo
    exact ⟨disk, hdisk, hkey⟩
  · rintro ⟨disk, hdisk, hkey⟩
    exact ⟨disk.info toUtf8, (hexact attached _).mpr ⟨disk, hdisk, rfl⟩, hkey⟩

theorem started_correct (hexact : Exact toUtf8 enumerate) (hok : Succeeds outcome)
    (attached : List AttachedDisk) : Correct toUtf8 (started enumerate attached outcome) := by
  intro key
  rw [started, inserted_all_keys hexact hok]
  exact or_iff_left (AList.notMem_empty key)

theorem arrival_correct (hexact : Exact toUtf8 enumerate) (hok : Succeeds outcome)
    (h : Correct toUtf8 m) (disk : AttachedDisk) :
    Correct toUtf8 (step enumerate m ⟨.arrival disk, outcome⟩) := by
  intro key
  rw [step_arrival, inserted_all_keys hexact hok, h key]
  constructor
  · rintro (hkey | ⟨other, hother, hkey⟩)
    · exact hkey
    · exact ⟨other, List.mem_cons_of_mem _ hother, hkey⟩
  · exact Or.inl

theorem removal_keys (hexact : Exact toUtf8 enumerate) (h : Correct toUtf8 m) (diskIndex : UInt32)
    (key : MountKey) :
    key ∈ (step enumerate m ⟨.removal diskIndex, outcome⟩).daemon.activeMounts ↔
      ∃ disk ∈ m.attached, disk.diskIndex = diskIndex ∧ key ∈ disk.mountableKeys toUtf8 := by
  rw [step_removal, foldl_removed_keys, h key]
  constructor
  · rintro ⟨hgone, disk, hdisk, hkey⟩
    refine ⟨disk, hdisk, ?_, hkey⟩
    by_contra hne
    have hleft : disk ∈ m.attached.filter (·.diskIndex != diskIndex) :=
      List.mem_filter.mpr ⟨hdisk, bne_iff_ne.mpr hne⟩
    exact hgone _ ((hexact _ _).mpr ⟨disk, hleft, rfl⟩) (mountableKeys_fst hkey)
  · rintro ⟨disk, hdisk, rfl, hkey⟩
    refine ⟨fun info hinfo hfst => ?_, disk, hdisk, hkey⟩
    obtain ⟨other, hother, rfl⟩ := (hexact _ info).mp hinfo
    have hne := bne_iff_ne.mp (List.mem_filter.mp hother).2
    exact hne ((mountableKeys_fst hkey).symm.trans hfst).symm

theorem removal_correct_iff (hexact : Exact toUtf8 enumerate) (h : Correct toUtf8 m)
    (diskIndex : UInt32) :
    Correct toUtf8 (step enumerate m ⟨.removal diskIndex, outcome⟩) ↔
      ∀ disk ∈ m.attached, mountablePartitions (disk.info toUtf8) = [] := by
  have hkeys : ∀ key, key ∈ (step enumerate m ⟨.removal diskIndex, outcome⟩).daemon.activeMounts ↔
      ∃ disk ∈ m.attached, disk.diskIndex = diskIndex ∧ key ∈ disk.mountableKeys toUtf8 :=
    removal_keys hexact h diskIndex
  constructor
  · intro hc disk hdisk
    rw [← List.map_eq_nil_iff, List.eq_nil_iff_forall_not_mem]
    intro key hkey
    by_cases hi : disk.diskIndex = diskIndex
    · -- a mount of the removed disk has stayed
      obtain ⟨other, hother, hkey'⟩ := (hc key).mp ((hkeys key).mpr ⟨disk, hdisk, hi, hkey⟩)
      have hne := bne_iff_ne.mp (List.mem_filter.mp hother).2
      rw [← mountableKeys_fst hkey', mountableKeys_fst hkey] at hne
      exact hne hi
    · -- a mount of an attached disk has gone
      have hleft : disk ∈ m.attached.filter (·.diskIndex != diskIndex) :=
        List.mem_filter.mpr ⟨hdisk, bne_iff_ne.mpr hi⟩
      obtain ⟨other, _, rfl, hkey'⟩ := (hkeys key).mp ((hc key).mpr ⟨disk, hleft, hkey⟩)
      exact hi ((mountableKeys_fst hkey).symm.trans (mountableKeys_fst hkey'))
  · intro hempty key
    have hnone : ∀ disk ∈ m.attached, key ∉ disk.mountableKeys toUtf8 := by
      intro disk hdisk hkey
      rw [AttachedDisk.mountableKeys, hempty disk hdisk] at hkey
      cases hkey
    refine iff_of_false (fun hkey => ?_) ?_
    · obtain ⟨disk, hdisk, _, hkey⟩ := (hkeys key).mp hkey
      exact hnone disk hdisk hkey
    · rintro ⟨disk, hdisk, hkey⟩
      exact hnone disk (List.mem_of_mem_filter hdisk) hkey

theorem step_correct_iff (hexact : Exact toUtf8 enumerate) {e : Event} (hok : Succeeds e.outcome)
    (h : Correct toUtf8 m) :
    Correct toUtf8 (step enumerate m e) ↔ NothingMountable toUtf8 m e := by
  obtain ⟨change, outcome⟩ := e
  cases change with
  | arrival disk => exact iff_of_true (arrival_correct hexact hok h disk) trivial
  | removal diskIndex => exact removal_correct_iff hexact h diskIndex

end Machines

/-- After every event the mounts are right exactly when each removal comes while no
attached disk, the removed one included, has a mountable partition. -/
theorem mounts_follow_disks_iff (toUtf8 : List UInt16 → List Byte)
    (enumerate : List AttachedDisk → List DiskInfo) (hexact : Exact toUtf8 enumerate)
    (attached : List AttachedDisk) (outcome : PartitionInfo → Outcome) (hok : Succeeds outcome)
    (events : List Event) (hall : ∀ e ∈ events, Succeeds e.outcome) :
    Always (step enumerate) (Correct toUtf8) (started enumerate attached outcome) events ↔
      Each (step enumerate) (NothingMountable toUtf8) (started enumerate attached outcome) events := by
  have hkept : ∀ m e, True → Succeeds e.outcome → Correct toUtf8 m →
      (Correct toUtf8 (step enumerate m e) ↔ NothingMountable toUtf8 m e) :=
    fun _ _ _ hok h => step_correct_iff hexact hok h
  exact always_iff_each (step enumerate) (fun _ _ _ _ => trivial) hkept trivial
    (started_correct hexact hok attached) (each_of_forall (step enumerate) hall)

def linuxDrive : PhysicalDrive where
  geometry := none
  layout := some (false, [⟨.mbr 0x83 false, 1048576, 16777216, 1⟩])
  readAt := fun _ => none

def twoDisks : List AttachedDisk := [⟨0, linuxDrive⟩, ⟨1, linuxDrive⟩]

def infos (attached : List AttachedDisk) : List DiskInfo :=
  attached.map (AttachedDisk.info fun _ => [])

theorem infos_exact : Exact (fun _ => []) infos := fun _ _ => List.mem_map

def mounting : PartitionInfo → Outcome := fun _ =>
  { createFile := fun _ => true
    reader := some (Reader.plainReader 16)
    reader_mounted := fun _ h => Option.some.inj h ▸ rfl
    projfsStarts := true }

theorem mounting_succeeds : Succeeds mounting := fun _ _ => ⟨rfl, rfl⟩

theorem mounts_follow_disks_iff_two :
    Always (step infos) (Correct fun _ => []) (started infos twoDisks mounting)
        [⟨.removal 1, mounting⟩] ↔
      Each (step infos) (NothingMountable fun _ => []) (started infos twoDisks mounting)
        [⟨.removal 1, mounting⟩] :=
  mounts_follow_disks_iff (fun _ => []) infos infos_exact twoDisks mounting mounting_succeeds
    [⟨.removal 1, mounting⟩] fun _ h => by
      rw [List.mem_singleton.mp h]
      exact mounting_succeeds

/-- The removal of disk 1 stops the mount of disk 0 and leaves that of disk 1. -/
theorem removal_hits_the_wrong_disk :
    Exact (fun _ => []) infos ∧ Succeeds mounting ∧
      ¬Always (step infos) (Correct fun _ => []) (started infos twoDisks mounting)
        [⟨.removal 1, mounting⟩] := by
  refine ⟨infos_exact, mounting_succeeds, fun h => ?_⟩
  have hcorrect := h.2 (0, 1)
  have hgone : (0, 1) ∉ (step infos (started infos twoDisks mounting)
      ⟨.removal 1, mounting⟩).daemon.activeMounts.keys := by
    decide +kernel
  refine hgone (AList.mem_keys.mp (hcorrect.mpr ⟨⟨0, linuxDrive⟩, ?_, ?_⟩))
  · exact List.mem_cons_self
  · decide +kernel

end Linux2Win.Hotplug
