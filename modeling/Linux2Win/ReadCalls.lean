import Linux2Win.DeviceRelations

namespace Linux2Win.ReadCalls

open Bytes Devices Ext4Types Reader BlockMap FileData Directory Traces DeviceRelations

abbrev ReadCall := UInt64 × UInt64

def traced (disk : Disk) (w : BlockDevice) : Device (StateM (List ReadCall)) := fun offset size =>
  ExceptT.mk fun log => (disk.device w offset size, log ++ [(offset, size)])

inductive Call
  | mount (isOpen : Bool)
  | readInode (inodeNum : UInt32)
  | statInode (inodeNum : UInt32)
  | statPath (path : Name)
  | listDirectory (dirInodeNum : UInt32)
  | listDirectoryPath (path : Name)
  | lookupPath (path : Name)
  | readFileData (inodeNum : UInt32) (offset : UInt64) (buffer : Option (List Byte)) (size : UInt64)
  | readFileByPath (path : Name) (offset : UInt64) (buffer : Option (List Byte)) (size : UInt64)
  | readSymlinkTarget (inodeNum : UInt32)

section Perform

variable {m : Type → Type} [Monad m] (dev : Device m) (rd : Ext4Reader) (fuel : Nat)

def perform : Call → ExceptT Fault m Unit
  | .mount isOpen => discard (Reader.mount dev isOpen rd)
  | .readInode inodeNum => discard (Reader.readInode dev rd inodeNum)
  | .statInode inodeNum => discard (Directory.statInode dev rd fuel inodeNum)
  | .statPath path => discard (Directory.statPath dev rd fuel path)
  | .listDirectory dirInodeNum => discard (Directory.listDirectory dev rd fuel dirInodeNum)
  | .listDirectoryPath path => discard (Directory.listDirectoryPath dev rd fuel path)
  | .lookupPath path => discard (Directory.lookupPath dev rd fuel path)
  | .readFileData inodeNum offset buffer size =>
      discard (FileData.readFileData dev rd fuel inodeNum offset buffer size)
  | .readFileByPath path offset buffer size =>
      discard (Directory.readFileByPath dev rd fuel path offset buffer size)
  | .readSymlinkTarget inodeNum => discard (Directory.readSymlinkTarget dev rd fuel inodeNum)

end Perform

theorem perform_related {m n : Type → Type} [Monad m] [Monad n] [LawfulMonad m] [LawfulMonad n]
    {R : {α : Type} → ExceptT Fault m α → ExceptT Fault n α → Prop} (hR : Congruence R)
    {dev : Device m} {dev' : Device n} (hdev : ∀ offset size, R (dev offset size) (dev' offset size))
    (rd : Ext4Reader) (fuel : Nat) (c : Call) : R (perform dev rd fuel c) (perform dev' rd fuel c) := by
  have hlookup := lookupPath_related hR hdev rd fuel
  cases c with
  | mount isOpen => exact hR.map _ (mount_related hR hdev rd isOpen)
  | readInode inodeNum => exact hR.map _ (readInode_related hR hdev rd inodeNum)
  | statInode inodeNum => exact hR.map _ (statInode_related hR hdev rd fuel inodeNum)
  | listDirectory dirInodeNum => exact hR.map _ (listDirectory_related hR hdev rd fuel dirInodeNum)
  | lookupPath path => exact hR.map _ (hlookup path)
  | readFileData inodeNum offset buffer size =>
      exact hR.map _ (readFileData_related hR hdev rd fuel inodeNum offset buffer size)
  | readSymlinkTarget inodeNum => exact hR.map _ (readSymlinkTarget_related hR hdev rd fuel inodeNum)
  | statPath path =>
      refine hR.map _ (hR.bind (hlookup path) fun found => ?_)
      split
      · exact hR.pure _
      · exact statInode_related hR hdev rd fuel _
  | listDirectoryPath path =>
      refine hR.map _ (hR.bind (hlookup path) fun found => ?_)
      split
      · exact hR.pure _
      · exact listDirectory_related hR hdev rd fuel _
  | readFileByPath path offset buffer size =>
      refine hR.map _ (hR.bind (hlookup path) fun found => ?_)
      split
      · exact hR.pure _
      · exact readFileData_related hR hdev rd fuel _ _ _ _

theorem traced_logs (disk : Disk) (w : BlockDevice) (offset size : UInt64) :
    Logs (traced disk w offset size) (disk.device w offset size) :=
  ⟨fun _ => rfl, rfl⟩

def reads (disk : Disk) (w : BlockDevice) (rd : Ext4Reader) (fuel : Nat) (c : Call) : List ReadCall :=
  (exec (perform (traced disk w) rd fuel c) []).2

def descriptorOffset (rd : Ext4Reader) (groupIdx : UInt32) : UInt64 :=
  (if rd.blockSize == 1024 then 2 else 1) * rd.blockSize.toUInt64 +
    groupIdx.toUInt64 * rd.descSize.toUInt64

def inodeRead (rd : Ext4Reader) (tableBlock : UInt64) (index : UInt32) : ReadCall :=
  (tableBlock * rd.blockSize.toUInt64 + index.toUInt64 * rd.inodeSize.toUInt64,
    rd.inodeSize.toUInt64)

def blockRead (rd : Ext4Reader) (block : UInt64) : ReadCall :=
  (block * rd.blockSize.toUInt64, rd.blockSize.toUInt64)

section Wrap

variable {rd : Ext4Reader}

theorem blocks_mul (hacc : Accepted rd.blockSize) :
    2 ^ 64 / rd.blockSize.toNat * rd.blockSize.toNat = 2 ^ 64 :=
  Nat.div_mul_cancel hacc.dvd

theorem blockRead_wraps_iff (hacc : Accepted rd.blockSize) (block : UInt64) :
    2 ^ 64 ≤ (blockRead rd block).1.toNat + (blockRead rd block).2.toNat ↔
      block.toNat % (2 ^ 64 / rd.blockSize.toNat) + 1 = 2 ^ 64 / rd.blockSize.toNat := by
  have hmul := blocks_mul hacc
  obtain ⟨k, hk, hbs⟩ := hacc
  have hsize : 0 < rd.blockSize.toNat := by
    rw [hbs]
    exact Nat.mul_pos (by decide) (Nat.two_pow_pos k)
  simp only [blockRead, UInt64.toNat_mul, UInt32.toNat_toUInt64]
  generalize 2 ^ 64 / rd.blockSize.toNat = count at hmul ⊢
  have hpos : 0 < count := Nat.pos_of_ne_zero (by rintro rfl; omega)
  have hlt := Nat.mod_lt block.toNat hpos
  rw [← hmul, Nat.mul_mod_mul_right, ← Nat.succ_mul, Nat.mul_le_mul_right_iff hsize]
  omega

def tableStart (rd : Ext4Reader) : Nat := (if rd.blockSize = 1024 then 2 else 1) * rd.blockSize.toNat

theorem tableStart_le (hacc : Accepted rd.blockSize) : tableStart rd ≤ 2 ^ 17 := by
  obtain ⟨k, hk, hbs⟩ := hacc
  have hle : 2 ^ k ≤ 2 ^ 6 := Nat.pow_le_pow_right (by decide) hk
  rw [tableStart]
  split <;> omega

theorem descriptorOffset_toNat (hacc : Accepted rd.blockSize) (groupIdx : UInt32) :
    (descriptorOffset rd groupIdx).toNat =
      tableStart rd + groupIdx.toNat * rd.descSize.toNat := by
  have hstart := tableStart_le hacc
  have hgroup : groupIdx.toNat * rd.descSize.toNat ≤ 2 ^ 32 * 2 ^ 16 :=
    Nat.mul_le_mul groupIdx.toNat_lt.le rd.descSize.toNat_lt.le
  have hfactor : (if rd.blockSize == 1024 then 2 else 1 : UInt64).toNat =
      if rd.blockSize = 1024 then 2 else 1 := by
    by_cases h : rd.blockSize = 1024 <;> simp [h]
  rw [descriptorOffset, UInt64.toNat_add, UInt64.toNat_mul, UInt64.toNat_mul, UInt32.toNat_toUInt64,
    UInt32.toNat_toUInt64, UInt16.toNat_toUInt64, hfactor, ← tableStart, ← Nat.add_mod]
  exact Nat.mod_eq_of_lt (by omega)

theorem descriptor_no_wrap (hacc : Accepted rd.blockSize) (groupIdx : UInt32) :
    (descriptorOffset rd groupIdx).toNat + 64 < 2 ^ 64 := by
  have hstart := tableStart_le hacc
  have hgroup : groupIdx.toNat * rd.descSize.toNat ≤ 2 ^ 32 * 2 ^ 16 :=
    Nat.mul_le_mul groupIdx.toNat_lt.le rd.descSize.toNat_lt.le
  rw [descriptorOffset_toNat hacc]
  omega

end Wrap

end Linux2Win.ReadCalls
