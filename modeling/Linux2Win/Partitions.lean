import Linux2Win.Guids
import Linux2Win.Ext4Types

namespace Linux2Win.Partitions

open Bytes Ext4Types Guids

inductive PartitionKind
  | unknown | linuxData | linuxRoot | linuxHome | linuxSrv | linuxVar | linuxBoot | linuxSwap
  | efiSystem | biosBoot | windowsMSR | windowsData | windowsRecovery
  deriving DecidableEq, Repr

inductive FilesystemType
  | unknown | ext2 | ext3 | ext4 | btrfs | xfs
  deriving DecidableEq, Repr

structure PartitionInfo where
  diskIndex : UInt32
  partitionNumber : UInt32
  startingOffset : UInt64
  totalLength : UInt64
  isGpt : Bool
  gptTypeGuid : Guid
  gptUniqueId : Guid
  mbrType : UInt8
  isBootable : Bool
  kind : PartitionKind
  fsType : FilesystemType
  name : List Byte
  fsLabel : List Byte
  fsUuid : List Byte
  isDataPartition : Bool
  deriving DecidableEq

/-- The excluded types come first, then the data types. -/
def classifyGpt (typeGuid : Guid) : PartitionKind :=
  if typeGuid = efiSystemPartition then .efiSystem
  else if typeGuid = biosBoot then .biosBoot
  else if typeGuid = linuxBoot then .linuxBoot
  else if typeGuid = linuxSwap then .linuxSwap
  else if typeGuid = windowsMSR then .windowsMSR
  else if typeGuid = windowsRecovery then .windowsRecovery
  else if typeGuid = linuxGenericData then .linuxData
  else if typeGuid = linuxRootX86_64 then .linuxRoot
  else if typeGuid = linuxRootArm64 then .linuxRoot
  else if typeGuid = linuxRootX86 then .linuxRoot
  else if typeGuid = linuxHome then .linuxHome
  else if typeGuid = linuxSrv then .linuxSrv
  else if typeGuid = linuxVar then .linuxVar
  else if typeGuid = linuxVarTmp then .linuxVar
  else if typeGuid = linuxUserHome then .linuxHome
  else .unknown

def classifyMbr (mbrType : UInt8) (_isBootable : Bool) : PartitionKind :=
  if mbrType == 0x83 then .linuxData
  else if mbrType == 0x82 then .linuxSwap
  else if mbrType == 0xEF then .efiSystem
  else if mbrType == 0x07 then .windowsData
  else if mbrType == 0x27 then .windowsRecovery
  else .unknown

def isSafeDataPartition : PartitionKind → Bool
  | .linuxData | .linuxRoot | .linuxHome | .linuxSrv | .linuxVar => true
  | _ => false

def isExcludedSystemPartition : PartitionKind → Bool
  | .efiSystem | .biosBoot | .linuxBoot | .linuxSwap | .windowsMSR | .windowsRecovery => true
  | _ => false

theorem safe_not_excluded (kind : PartitionKind) (h : isSafeDataPartition kind = true) :
    isExcludedSystemPartition kind = false := by
  cases kind <;> first | rfl | cases h

def probedSuperblock (sectorBuffer : List Byte) : Ext4Superblock :=
  Packed.ofBytes 1024 (sectorBuffer.drop superblockOffset.toNat)

def probeFilesystem (sectorBuffer : List Byte) : FilesystemType :=
  if sectorBuffer.length < 2048 then .unknown
  else
    let sb := probedSuperblock sectorBuffer
    if sb.sMagic == superblockMagic then
      if sb.sFeatureIncompat &&& featureIncompatExtents != 0 ||
          sb.sFeatureIncompat &&& featureIncompat64Bit != 0 then .ext4
      else if sb.sFeatureCompat &&& 0x0004 != 0 then .ext3
      else .ext2
    else if sectorBuffer.length ≥ 0x10048 &&
        (sectorBuffer.drop 0x10040).take 8 == asciiBytes "_BHRfS_M" then .btrfs
    else .unknown

def isExt : FilesystemType → Bool
  | .ext2 | .ext3 | .ext4 => true
  | _ => false

theorem probe_isExt_iff (sectorBuffer : List Byte) :
    isExt (probeFilesystem sectorBuffer) = true ↔
      2048 ≤ sectorBuffer.length ∧ (probedSuperblock sectorBuffer).sMagic = superblockMagic := by
  dsimp only [probeFilesystem]
  by_cases hl : sectorBuffer.length < 2048
  · exact iff_of_false (by simp [hl, isExt]) fun h => absurd h.1 (by omega)
  · by_cases hm : (probedSuperblock sectorBuffer).sMagic = superblockMagic
    · simp only [hl, hm, if_false, beq_self_eq_true, if_true]
      refine iff_of_true ?_ ⟨by omega, trivial⟩
      split
      · rfl
      · split <;> rfl
    · simp only [hl, hm, if_false, beq_iff_eq, and_false, iff_false]
      split <;> simp [isExt]

end Linux2Win.Partitions
