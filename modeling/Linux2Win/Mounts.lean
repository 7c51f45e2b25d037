import Linux2Win.Enumerator
import Linux2Win.Reader
import Mathlib.Data.List.AList
import Mathlib.Data.List.Sort

namespace Linux2Win.Mounts

open Bytes Guids Devices Reader Partitions Enumerator

abbrev MountKey := UInt32 × UInt32

def keyOf (part : PartitionInfo) : MountKey := (part.diskIndex, part.partitionNumber)

/-- The order of `std::pair`, in which the map is walked. -/
def keyLe (a b : MountKey) : Prop := a.1 < b.1 ∨ a.1 = b.1 ∧ a.2 ≤ b.2

instance : DecidableRel keyLe := fun _ _ => inferInstanceAs (Decidable (_ ∨ _ ∧ _))

def decimal (n : Nat) : List Byte := (Nat.toDigits 10 n).map fun c => UInt8.ofNat c.toNat

def getMountDirForPartition (part : PartitionInfo) : List UInt16 :=
  let dir := asciiBytes "C:\\LinuxDisks\\Disk" ++ decimal part.diskIndex.toNat ++
    asciiBytes "_Part" ++ decimal part.partitionNumber.toNat
  widen (if part.fsLabel.isEmpty then dir else dir ++ asciiBytes "_" ++ part.fsLabel)

/-- What one attempt to mount meets: whether the handle can be opened with and without
`FILE_FLAG_NO_BUFFERING`, the reader if its `mount` returns true, and whether the
projection starts. -/
structure Outcome where
  createFile : Bool → Bool
  reader : Option Ext4Reader
  reader_mounted : ∀ rd, reader = some rd → rd.mounted = true
  projfsStarts : Bool

def Outcome.Ready (o : Outcome) : Prop :=
  (o.createFile true || o.createFile false) = true ∧ o.reader.isSome = true

structure ActiveMount where
  part : PartitionInfo
  mountDir : List UInt16
  device : BlockDevice
  reader : Ext4Reader
  projfsActive : Bool

/-- What the daemon does to the world outside. A call of `ProjFSMount::start` stands
here with what it returns. -/
inductive Effect
  | projectionStart (key : MountKey) (mountDir : List UInt16) (started : Bool)
  | projectionStopped (mountDir : List UInt16)
  | notifiedMounted (key : MountKey) (mountDir : List UInt16)
  | notifiedUnmounted (key : MountKey)
  deriving DecidableEq

structure Daemon where
  activeMounts : AList fun _ : MountKey => ActiveMount
  effects : List Effect

def idle : Daemon := ⟨∅, []⟩

/-- Whether the projection has started is recorded, but not looked at. -/
def mountDataPartition (o : Outcome) (part : PartitionInfo) (d : Daemon) : Bool × Daemon :=
  if keyOf part ∈ d.activeMounts then (true, d)
  else match openReadOnly o.createFile part.startingOffset part.totalLength, o.reader with
    | some device, some reader =>
      let mountDir := getMountDirForPartition part
      let mount : ActiveMount := ⟨part, mountDir, device, reader, o.projfsStarts⟩
      (true, ⟨d.activeMounts.insert (keyOf part) mount,
        d.effects ++ [.projectionStart (keyOf part) mountDir o.projfsStarts,
          .notifiedMounted (keyOf part) mountDir]⟩)
    | _, _ => (false, d)

def unmountDataPartition (key : MountKey) (d : Daemon) : Daemon :=
  match d.activeMounts.lookup key with
  | none => d
  | some mount =>
    ⟨d.activeMounts.erase key,
      d.effects ++ (if mount.projfsActive then [.projectionStopped mount.mountDir] else []) ++
        [.notifiedUnmounted key]⟩

def unmountAllPartitionsForDisk (diskIndex : UInt32) (d : Daemon) : Daemon :=
  ((d.activeMounts.keys.filter (·.1 == diskIndex)).insertionSort keyLe).foldl
    (fun d key => unmountDataPartition key d) d

/-- The loop over partitions that the callback and the rescan share. -/
def mountAll (outcome : PartitionInfo → Outcome) (parts : List PartitionInfo) (d : Daemon) : Daemon :=
  parts.foldl (fun d part => (mountDataPartition (outcome part) part d).2) d

def rescanAndMountAll (outcome : PartitionInfo → Outcome) (inspect : UInt32 → Option DiskInfo)
    (d : Daemon) : Daemon :=
  mountAll outcome (getAllMountablePartitions inspect) d

inductive DiskEventType
  | inserted | removed
  deriving DecidableEq, Repr

/-- The callback that `wWinMain` gives to the monitor. -/
def diskEvent (outcome : PartitionInfo → Outcome) (type : DiskEventType) (disk : DiskInfo)
    (d : Daemon) : Daemon :=
  match type with
  | .inserted => mountAll outcome (mountablePartitions disk) d
  | .removed => unmountAllPartitionsForDisk disk.diskIndex d

def wmDeviceChange : UInt32 := 0x0219
def dbtDeviceArrival : UInt64 := 0x8000
def dbtDeviceRemoveComplete : UInt64 := 0x8004
def dbtDevtypDeviceInterface : UInt32 := 5

/-- A window message; `deviceType` is none for a null `lParam`. -/
structure WindowMessage where
  uMsg : UInt32
  wParam : UInt64
  deviceType : Option UInt32

/-- The tests of `WindowProc` that come before the rescan. -/
def eventType (msg : WindowMessage) : Option DiskEventType :=
  if msg.uMsg == wmDeviceChange &&
      (msg.wParam == dbtDeviceArrival || msg.wParam == dbtDeviceRemoveComplete) &&
      msg.deviceType == some dbtDevtypDeviceInterface then
    some (if msg.wParam == dbtDeviceArrival then .inserted else .removed)
  else none

/-- `disks` is what the rescan finds. Every one of them gets the type of the event. -/
def windowProc (outcome : PartitionInfo → Outcome) (disks : List DiskInfo) (msg : WindowMessage)
    (d : Daemon) : Daemon :=
  match eventType msg with
  | none => d
  | some type => disks.foldl (fun d disk => diskEvent outcome type disk d) d

section Keys

variable {d : Daemon} {key : MountKey}

theorem mountDataPartition_mounted (o : Outcome) {part : PartitionInfo}
    (h : keyOf part ∈ d.activeMounts) : mountDataPartition o part d = (true, d) := if_pos h

theorem mountDataPartition_ready {o : Outcome} (hok : o.Ready) {part : PartitionInfo}
    (hnew : keyOf part ∉ d.activeMounts) :
    ∃ mount : ActiveMount, mount.projfsActive = o.projfsStarts ∧ mountDataPartition o part d =
      (true, ⟨d.activeMounts.insert (keyOf part) mount,
        d.effects ++ [.projectionStart (keyOf part) (getMountDirForPartition part) o.projfsStarts,
          .notifiedMounted (keyOf part) (getMountDirForPartition part)]⟩) := by
  have hopen := (openReadOnly_isSome o.createFile part.startingOffset part.totalLength).trans hok.1
  obtain ⟨device, hd⟩ := Option.isSome_iff_exists.mp hopen
  obtain ⟨reader, hr⟩ := Option.isSome_iff_exists.mp hok.2
  refine ⟨⟨part, getMountDirForPartition part, device, reader, o.projfsStarts⟩, rfl, ?_⟩
  rw [mountDataPartition, if_neg hnew, hd, hr]

theorem mountDataPartition_unready {o : Outcome} (hno : ¬o.Ready) {part : PartitionInfo}
    (hnew : keyOf part ∉ d.activeMounts) : mountDataPartition o part d = (false, d) := by
  have hopen := openReadOnly_isSome o.createFile part.startingOffset part.totalLength
  rw [mountDataPartition, if_neg hnew]
  cases hd : openReadOnly o.createFile part.startingOffset part.totalLength with
  | none => rfl
  | some device =>
      rw [hd] at hopen
      cases hr : o.reader with
      | none => rfl
      | some reader => exact absurd ⟨hopen.symm, by rw [hr]; rfl⟩ hno

theorem mountDataPartition_cases (o : Outcome) (part : PartitionInfo) (d : Daemon) :
    (o.Ready ∧ keyOf part ∉ d.activeMounts ∧ ∃ mount,
        (mountDataPartition o part d).2 = ⟨d.activeMounts.insert (keyOf part) mount,
          d.effects ++ [.projectionStart (keyOf part) (getMountDirForPartition part) o.projfsStarts,
            .notifiedMounted (keyOf part) (getMountDirForPartition part)]⟩) ∨
      (o.Ready → keyOf part ∈ d.activeMounts) ∧ (mountDataPartition o part d).2 = d := by
  by_cases hmem : keyOf part ∈ d.activeMounts
  · exact Or.inr ⟨fun _ => hmem, congrArg Prod.snd (mountDataPartition_mounted o hmem)⟩
  · by_cases hok : o.Ready
    · obtain ⟨mount, _, hrun⟩ := mountDataPartition_ready hok hmem
      exact Or.inl ⟨hok, hmem, mount, congrArg Prod.snd hrun⟩
    · exact Or.inr ⟨fun h => absurd h hok, congrArg Prod.snd (mountDataPartition_unready hok hmem)⟩

theorem mountDataPartition_mem (o : Outcome) (part : PartitionInfo) :
    key ∈ (mountDataPartition o part d).2.activeMounts ↔
      o.Ready ∧ key = keyOf part ∨ key ∈ d.activeMounts := by
  rcases mountDataPartition_cases o part d with ⟨hok, _, mount, hrun⟩ | ⟨hmem, hrun⟩
  · rw [hrun, AList.mem_insert]
    exact or_congr_left (and_iff_right hok).symm
  · rw [hrun]
    constructor
    · exact Or.inr
    · rintro (⟨hok, rfl⟩ | h)
      · exact hmem hok
      · exact h

theorem mountDataPartition_keys {o : Outcome} (hok : o.Ready) (part : PartitionInfo) :
    key ∈ (mountDataPartition o part d).2.activeMounts ↔ key = keyOf part ∨ key ∈ d.activeMounts := by
  rw [mountDataPartition_mem, and_iff_right hok]

theorem mountAll_keys {outcome : PartitionInfo → Outcome} {parts : List PartitionInfo}
    (hok : ∀ part ∈ parts, (outcome part).Ready) :
    key ∈ (mountAll outcome parts d).activeMounts ↔ key ∈ parts.map keyOf ∨ key ∈ d.activeMounts := by
  induction parts generalizing d with
  | nil => simp [mountAll]
  | cons part parts ih =>
      have hstep := ih (d := (mountDataPartition (outcome part) part d).2)
        fun p hp => hok p (List.mem_cons_of_mem _ hp)
      apply hstep.trans
      rw [mountDataPartition_keys (hok part List.mem_cons_self), List.map_cons, List.mem_cons]
      tauto

theorem unmountDataPartition_keys {gone : MountKey} :
    key ∈ (unmountDataPartition gone d).activeMounts ↔ key ≠ gone ∧ key ∈ d.activeMounts := by
  rw [unmountDataPartition]
  split
  · rename_i hnone
    have hno := AList.lookup_eq_none.mp hnone
    constructor
    · refine fun h => ⟨?_, h⟩
      rintro rfl
      exact hno h
    · exact And.right
  · exact AList.mem_erase

theorem foldl_unmount_keys {gone : List MountKey} :
    key ∈ (gone.foldl (fun d key => unmountDataPartition key d) d).activeMounts ↔
      key ∉ gone ∧ key ∈ d.activeMounts := by
  induction gone generalizing d with
  | nil => simp
  | cons k gone ih =>
      rw [List.foldl_cons, ih, unmountDataPartition_keys, List.mem_cons]
      tauto

theorem unmountAll_keys {diskIndex : UInt32} :
    key ∈ (unmountAllPartitionsForDisk diskIndex d).activeMounts ↔
      key.1 ≠ diskIndex ∧ key ∈ d.activeMounts := by
  rw [unmountAllPartitionsForDisk, foldl_unmount_keys, List.mem_insertionSort, List.mem_filter]
  simp only [beq_iff_eq, not_and, ← AList.mem_keys]
  tauto

/-- The removal of one disk unmounts whatever the rescan still finds. -/
theorem foldl_removed_keys {outcome : PartitionInfo → Outcome} {disks : List DiskInfo} :
    key ∈ (disks.foldl (fun d disk => diskEvent outcome .removed disk d) d).activeMounts ↔
      (∀ disk ∈ disks, key.1 ≠ disk.diskIndex) ∧ key ∈ d.activeMounts := by
  induction disks generalizing d with
  | nil => simp
  | cons disk disks ih =>
      rw [List.foldl_cons, ih, diskEvent, unmountAll_keys, List.forall_mem_cons]
      tauto

theorem foldl_inserted_keys {outcome : PartitionInfo → Outcome} {disks : List DiskInfo}
    (hok : ∀ disk ∈ disks, ∀ part ∈ mountablePartitions disk, (outcome part).Ready) :
    key ∈ (disks.foldl (fun d disk => diskEvent outcome .inserted disk d) d).activeMounts ↔
      (∃ disk ∈ disks, key ∈ (mountablePartitions disk).map keyOf) ∨ key ∈ d.activeMounts := by
  induction disks generalizing d with
  | nil => simp
  | cons disk disks ih =>
      rw [List.foldl_cons, ih fun dk hdk => hok dk (List.mem_cons_of_mem _ hdk), diskEvent,
        mountAll_keys (hok disk List.mem_cons_self), List.exists_mem_cons_iff]
      exact or_left_comm.trans or_assoc.symm

end Keys

end Linux2Win.Mounts
