import Linux2Win.Directory
import Linux2Win.Programs
import Linux2Win.Traces

namespace Linux2Win.DeviceRelations

open Bytes Devices Ext4Types Reader BlockMap FileData Directory Programs Traces

variable {m n : Type → Type} [Monad m] [Monad n]
  {R : {α : Type} → ExceptT Fault m α → ExceptT Fault n α → Prop} (hR : Congruence R)
  {dev : Device m} {dev' : Device n} (hdev : ∀ offset size, R (dev offset size) (dev' offset size))
  (rd : Ext4Reader)

/-! What holds between the requests to two devices goes through all of the reader. -/

include hR hdev

theorem mount_related (isOpen : Bool) : R (mount dev isOpen rd) (mount dev' isOpen rd) := by
  rw [mount, mount]
  dsimp only
  split
  · exact hR.pure _
  · refine hR.bind (hdev _ _) fun b => ?_
    split
    · exact hR.pure _
    · split
      · exact hR.pure _
      · split
        · exact hR.pure _
        · split <;> exact hR.pure _

theorem readGroupDescriptor_related (groupIdx : UInt32) :
    R (readGroupDescriptor dev rd groupIdx) (readGroupDescriptor dev' rd groupIdx) := by
  rw [readGroupDescriptor, readGroupDescriptor]
  split
  · exact hR.pure _
  · exact hR.bind (hdev _ _) fun _ => hR.pure _

theorem parseExtentNode_related (fuel : Nat) (block : UInt64) (logicalBlock : UInt32) :
    R (parseExtentNode dev rd fuel block logicalBlock)
      (parseExtentNode dev' rd fuel block logicalBlock) := by
  induction fuel generalizing block with
  | zero => exact hR.throw _
  | succ fuel ih =>
      rw [parseExtentNode, parseExtentNode]
      refine hR.bind (hdev _ _) fun node => ?_
      split
      · exact hR.pure _
      · split
        · exact hR.throw _
        · exact hR.pure _
        · exact ih _

theorem readPointer_related (block i : UInt32) :
    R (readPointer dev rd block i) (readPointer dev' rd block i) := by
  rw [readPointer, readPointer]
  split
  · exact hR.pure _
  · exact hR.bind (hdev _ _) fun _ => hR.pure _

theorem readIndirectBlock_related (inode : Ext4Inode) (logicalBlock : UInt32) :
    R (readIndirectBlock dev rd inode logicalBlock) (readIndirectBlock dev' rd inode logicalBlock) := by
  have hpointer := readPointer_related hR hdev rd
  rw [readIndirectBlock, readIndirectBlock]
  split
  · exact hR.pure _
  · dsimp only
    split
    · exact hR.bind (hpointer _ _) fun _ => hR.pure _
    · split
      · refine hR.bind (hpointer _ _) fun indBlock => ?_
        split
        · exact hR.pure _
        · exact hR.bind (hpointer _ _) fun _ => hR.pure _
      · exact hR.pure _

theorem mapBlock_related (fuel : Nat) (inode : Ext4Inode) (logicalBlock : UInt32) :
    R (mapBlock dev rd fuel inode logicalBlock) (mapBlock dev' rd fuel inode logicalBlock) := by
  rw [mapBlock, mapBlock, resolveExtentBlock, resolveExtentBlock]
  split
  · split
    · exact hR.throw _
    · exact hR.pure _
    · exact parseExtentNode_related hR hdev rd fuel _ _
  · exact readIndirectBlock_related hR hdev rd inode logicalBlock

theorem blockBytes_related (mapped : Option UInt64) (blockOffset toCopy : UInt32) :
    R (blockBytes dev rd mapped blockOffset toCopy) (blockBytes dev' rd mapped blockOffset toCopy) := by
  cases mapped with
  | none => exact hR.pure _
  | some physBlock =>
      rw [blockBytes, blockBytes]
      split
      · exact hR.bind (hdev _ _) fun _ => hR.pure _
      · exact hR.pure _

theorem copyLoop_related (inode : Ext4Inode) (depth fuel : Nat) (offset remaining : UInt64)
    (written : List Byte) :
    R (copyLoop dev rd inode depth fuel offset remaining written)
      (copyLoop dev' rd inode depth fuel offset remaining written) := by
  induction fuel generalizing offset remaining written with
  | zero => exact hR.throw _
  | succ fuel ih =>
      rw [copyLoop, copyLoop]
      split
      · exact hR.pure _
      · refine hR.bind (mapBlock_related hR hdev rd depth inode _) fun mapped => ?_
        refine hR.bind (blockBytes_related hR hdev rd mapped _ _) fun bytes => ?_
        split
        · exact hR.pure _
        · exact ih _ _ _

variable [LawfulMonad m] [LawfulMonad n]

theorem readInode_related (inodeNum : UInt32) :
    R (readInode dev rd inodeNum) (readInode dev' rd inodeNum) := by
  rw [readInode, readInode]
  split
  · exact hR.pure _
  · split
    · rw [throw_bind, throw_bind]
      exact hR.throw _
    · refine hR.bind (readGroupDescriptor_related hR hdev rd _) fun gd => ?_
      split
      · exact hR.pure _
      · exact hR.bind (hdev _ _) fun _ => hR.pure _

theorem readFileData_related (fuel : Nat) (inodeNum : UInt32) (offset : UInt64)
    (buffer : Option (List Byte)) (size : UInt64) :
    R (readFileData dev rd fuel inodeNum offset buffer size)
      (readFileData dev' rd fuel inodeNum offset buffer size) := by
  cases buffer with
  | none => exact hR.pure _
  | some buffer =>
      rw [readFileData, readFileData]
      split
      · exact hR.pure _
      · refine hR.bind (readInode_related hR hdev rd inodeNum) fun inode => ?_
        split
        · exact hR.pure _
        · split
          · exact hR.pure _
          · refine hR.bind (copyLoop_related hR hdev rd _ fuel fuel _ _ _) fun r => ?_
            split <;> exact hR.pure _

theorem readSymlinkTarget_related (fuel : Nat) (inodeNum : UInt32) :
    R (readSymlinkTarget dev rd fuel inodeNum) (readSymlinkTarget dev' rd fuel inodeNum) := by
  rw [readSymlinkTarget, readSymlinkTarget]
  refine hR.bind (readInode_related hR hdev rd inodeNum) fun inode => ?_
  split
  · exact hR.pure _
  · dsimp only
    split
    · exact hR.pure _
    · split
      · exact hR.pure _
      · refine hR.bind (readFileData_related hR hdev rd fuel _ _ _ _) fun r => ?_
        split <;> exact hR.pure _

theorem statInode_related (fuel : Nat) (inodeNum : UInt32) :
    R (statInode dev rd fuel inodeNum) (statInode dev' rd fuel inodeNum) := by
  rw [statInode, statInode]
  refine hR.bind (readInode_related hR hdev rd inodeNum) fun inode => ?_
  split
  · exact hR.pure _
  · dsimp only
    split
    · exact hR.bind (readSymlinkTarget_related hR hdev rd fuel inodeNum) fun _ => hR.pure _
    · exact hR.bind (hR.pure _) fun _ => hR.pure _

theorem dirEntry_related (inode : UInt32) (name : Name) (fileType : Byte) :
    R (dirEntry dev rd inode name fileType) (dirEntry dev' rd inode name fileType) := by
  rw [dirEntry, dirEntry]
  dsimp only
  split
  · refine hR.bind (readInode_related hR hdev rd inode) fun child => ?_
    split <;> exact hR.pure _
  · exact hR.pure _

theorem recordEntry_related (content : List Byte) (offset : Nat) :
    R (recordEntry dev rd content offset) (recordEntry dev' rd content offset) := by
  rw [recordEntry, recordEntry]
  dsimp only
  split
  · exact hR.pure _
  · split
    · rw [throw_bind, throw_bind]
      exact hR.throw _
    · split
      · exact hR.pure _
      · exact hR.bind (dirEntry_related hR hdev rd _ _ _) fun _ => hR.pure _

theorem scanDirectory_related (content : List Byte) (bytesRead turns offset : Nat)
    (entries : List DirEntryInfo) :
    R (scanDirectory dev rd content bytesRead turns offset entries)
      (scanDirectory dev' rd content bytesRead turns offset entries) := by
  induction turns generalizing offset entries with
  | zero => exact hR.throw _
  | succ turns ih =>
      rw [scanDirectory, scanDirectory]
      split
      · exact hR.pure _
      · dsimp only
        split
        · exact hR.pure _
        · exact hR.bind (recordEntry_related hR hdev rd content offset) fun _ => ih _ _

theorem listDirectory_related (fuel : Nat) (dirInodeNum : UInt32) :
    R (listDirectory dev rd fuel dirInodeNum) (listDirectory dev' rd fuel dirInodeNum) := by
  rw [listDirectory, listDirectory]
  split
  · exact hR.pure _
  · refine hR.bind (readInode_related hR hdev rd dirInodeNum) fun inode => ?_
    split
    · exact hR.pure _
    · split
      · exact hR.pure _
      · dsimp only
        split
        · exact hR.pure _
        · refine hR.bind (readFileData_related hR hdev rd fuel _ _ _ _) fun r => ?_
          split
          · exact hR.pure _
          · exact hR.bind (scanDirectory_related hR hdev rd _ _ _ _ _) fun _ => hR.pure _

theorem lookupParts_related (fuel : Nat) (currInode : UInt32) (parts : List Name) :
    R (lookupParts (listDirectory dev rd fuel) currInode parts)
      (lookupParts (listDirectory dev' rd fuel) currInode parts) := by
  induction parts generalizing currInode with
  | nil => exact hR.pure _
  | cons part parts ih =>
      rw [lookupParts, lookupParts]
      refine hR.bind (listDirectory_related hR hdev rd fuel currInode) fun entries => ?_
      split
      · exact hR.pure _
      · split
        · exact hR.pure _
        · exact ih _

theorem lookupPath_related (fuel : Nat) (path : Name) :
    R (lookupPath dev rd fuel path) (lookupPath dev' rd fuel path) := by
  rw [lookupPath, lookupPath]
  split
  · exact hR.pure _
  · split
    · exact hR.pure _
    · exact lookupParts_related hR hdev rd fuel 2 _

end Linux2Win.DeviceRelations
