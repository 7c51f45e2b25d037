import Linux2Win.Partitions

namespace Linux2Win.Enumerator

open Bytes Ext4Types Guids Partitions

inductive PartitionStyle
  | mbr (partitionType : UInt8) (bootIndicator : Bool)
  | gpt (partitionType partitionId : Guid) (attributes : UInt64) (name : List UInt16)
  | raw

structure PartitionEntry where
  style : PartitionStyle
  startingOffset : UInt64
  partitionLength : UInt64
  partitionNumber : UInt32

structure PhysicalDrive where
  geometry : Option (UInt64 × UInt32)
  layout : Option (Bool × List PartitionEntry)
  readAt : UInt64 → Option (List Byte)

structure DiskInfo where
  diskIndex : UInt32
  totalSizeBytes : UInt64
  sectorSize : UInt32
  hasGpt : Bool
  partitions : List PartitionInfo

def gptBasicDataAttributeReadOnly : UInt64 := 0x1000000000000000

/-- `toUtf8` stands for `WideCharToMultiByte(CP_UTF8, ...)`. -/
def layoutPartition (toUtf8 : List UInt16 → List Byte) (diskIndex : UInt32)
    (entry : PartitionEntry) : PartitionInfo :=
  let part : PartitionInfo :=
    { diskIndex := diskIndex
      partitionNumber := entry.partitionNumber
      startingOffset := entry.startingOffset
      totalLength := entry.partitionLength
      isGpt := false
      gptTypeGuid := .zero
      gptUniqueId := .zero
      mbrType := 0
      isBootable := false
      kind := .unknown
      fsType := .unknown
      name := []
      fsLabel := []
      fsUuid := []
      isDataPartition := false }
  let part := match entry.style with
    | .gpt type id attributes name =>
      { part with
        isGpt := true
        gptTypeGuid := type
        gptUniqueId := id
        kind := classifyGpt type
        name := toUtf8 (name.takeWhile (· != 0))
        isBootable := attributes &&& gptBasicDataAttributeReadOnly == 0 }
    | .mbr type boot =>
      { part with mbrType := type, isBootable := boot, kind := classifyMbr type boot }
    | .raw => part
  { part with isDataPartition := isSafeDataPartition part.kind }

/-- Entries of length zero are empty slots of the table. -/
def layoutPartitions (toUtf8 : List UInt16 → List Byte) (diskIndex : UInt32)
    (entries : List PartitionEntry) : List PartitionInfo :=
  (entries.filter (·.partitionLength != 0)).map (layoutPartition toUtf8 diskIndex)

def uuidText (uuid : List Byte) : List Byte :=
  (List.range 16).flatMap fun i =>
    (if i == 4 || i == 6 || i == 8 || i == 10 then [0x2D] else []) ++
      hexPadded 2 (byteAt uuid i).toNat

def probeBuffer (drive : PhysicalDrive) (part : PartitionInfo) : Option (List Byte) :=
  if part.totalLength < 4096 then none
  else (drive.readAt part.startingOffset).filter fun b => 2048 ≤ b.length

def probePartitionFilesystem (drive : PhysicalDrive) (part : PartitionInfo) : PartitionInfo :=
  match probeBuffer drive part with
  | none => part
  | some buffer =>
    let fs := probeFilesystem buffer
    if isExt fs then
      let sb := probedSuperblock buffer
      let part := { part with
        fsType := fs
        fsLabel := sb.sVolumeName.takeWhile (· != 0)
        fsUuid := uuidText sb.sUuid }
      if part.kind = .unknown then { part with kind := .linuxData, isDataPartition := true }
      else part
    else { part with fsType := fs }

/-- A drive without a readable layout has no partitions. -/
def inspectDisk (toUtf8 : List UInt16 → List Byte) (drive : PhysicalDrive) (diskIndex : UInt32) :
    DiskInfo :=
  { diskIndex := diskIndex
    totalSizeBytes := match drive.geometry with
      | some g => g.1
      | none => 0
    sectorSize := match drive.geometry with
      | some g => if g.2 != 0 then g.2 else 512
      | none => 512
    hasGpt := match drive.layout with
      | some l => l.1
      | none => false
    partitions := match drive.layout with
      | some l => (layoutPartitions toUtf8 diskIndex l.2).map (probePartitionFilesystem drive)
      | none => [] }

/-- The drive loop from index `i` on with `n` indices left. -/
def enumerateLoop (inspect : UInt32 → Option DiskInfo) : Nat → UInt32 → Nat → List DiskInfo
  | 0, _, _ => []
  | n + 1, i, consecutiveMisses =>
      match inspect i with
      | some disk => disk :: enumerateLoop inspect n (i + 1) 0
      | none =>
        if consecutiveMisses + 1 ≥ 3 && i ≥ 4 then []
        else enumerateLoop inspect n (i + 1) (consecutiveMisses + 1)

def enumerateAllDisks (inspect : UInt32 → Option DiskInfo) : List DiskInfo :=
  enumerateLoop inspect 32 0 0

def isMountable (part : PartitionInfo) : Bool :=
  part.isDataPartition && !isExcludedSystemPartition part.kind

def mountablePartitions (disk : DiskInfo) : List PartitionInfo := disk.partitions.filter isMountable

def getAllMountablePartitions (inspect : UInt32 → Option DiskInfo) : List PartitionInfo :=
  (enumerateAllDisks inspect).flatMap mountablePartitions

def cmdMountRefuses (part : PartitionInfo) : Bool :=
  !part.isDataPartition || isExcludedSystemPartition part.kind

def cmdLsRefuses (part : PartitionInfo) : Bool := !part.isDataPartition

def cmdCatMatches (partIdx : UInt32) (part : PartitionInfo) : Bool :=
  part.partitionNumber == partIdx && part.isDataPartition

@[simp] theorem probe_diskIndex (drive : PhysicalDrive) (part : PartitionInfo) :
    (probePartitionFilesystem drive part).diskIndex = part.diskIndex := by
  unfold probePartitionFilesystem
  split
  · rfl
  · dsimp only
    split
    · split <;> rfl
    · rfl

section Inspected

variable {toUtf8 : List UInt16 → List Byte} {drive : PhysicalDrive} {diskIndex : UInt32}
  {part : PartitionInfo}

theorem mem_inspectDisk_partitions : part ∈ (inspectDisk toUtf8 drive diskIndex).partitions ↔
    ∃ gpt entries, drive.layout = some (gpt, entries) ∧ ∃ entry ∈ entries,
      entry.partitionLength ≠ 0 ∧
        probePartitionFilesystem drive (layoutPartition toUtf8 diskIndex entry) = part := by
  dsimp only [inspectDisk]
  cases drive.layout with
  | none => simp
  | some l =>
      obtain ⟨gpt, entries⟩ := l
      simp [layoutPartitions, and_assoc]

theorem inspectDisk_partition_diskIndex
    (h : part ∈ (inspectDisk toUtf8 drive diskIndex).partitions) : part.diskIndex = diskIndex := by
  obtain ⟨_, _, _, entry, _, _, rfl⟩ := mem_inspectDisk_partitions.mp h
  rw [probe_diskIndex]
  unfold layoutPartition
  cases entry.style <;> rfl

end Inspected

end Linux2Win.Enumerator
