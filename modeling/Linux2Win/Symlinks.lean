import Linux2Win.DirRecords
import Linux2Win.ExtentMap

namespace Linux2Win.Symlinks

open Bytes Devices Ext4Types Reader BlockMap FileData Directory Programs FileContent PointerTree
  ReadFile ExtentTree ExtentMap DirRecords

inductive Stores (dev : Device Id) (rd : Ext4Reader) (inode : Ext4Inode) (logicalBlock : UInt32)
    (physBlock : UInt64) : Prop
  | extent (ex : Ext4Extent) (uses : usesExtents inode = true)
      (tree : SearchTree dev rd inode.iBlock) (inTree : InTree dev rd ex inode.iBlock)
      (maps : Maps ex logicalBlock)
      (place : physBlock.toNat = firstBlock ex + (logicalBlock.toNat - ex.eeBlock.toNat)) :
      Stores dev rd inode logicalBlock physBlock
  | pointer (uses : usesExtents inode = false)
      (range : logicalBlock.toNat < 12 + pointersPerBlock rd + pointersPerBlock rd * pointersPerBlock rd)
      (path : pointerTree dev rd inode logicalBlock = pure (.entry physBlock)) :
      Stores dev rd inode logicalBlock physBlock

/-- A target is stored in the inode if it has less than 60 bytes, and in the blocks of
its data otherwise. -/
structure StoredTarget (dev : Device Id) (rd : Ext4Reader) (inode : Ext4Inode) (target : Name) :
    Prop where
  size : inode.iSizeLo.toNat = target.length
  short : target.length < 60 → inode.iBlock.take target.length = target
  long : 60 ≤ target.length → ∀ pos (h : pos < target.length), ∃ physBlock b,
    Stores dev rd inode (UInt32.ofNat (pos / rd.blockSize.toNat)) physBlock ∧ physBlock ≠ 0 ∧
      readBlock dev physBlock rd.blockSize = pure (some b) ∧
      b[pos % rd.blockSize.toNat]? = some target[pos]

theorem fileSize_symlink {inode : Ext4Inode} (hlink : inode.iMode &&& sIfmt = sIflnk) :
    fileSize inode = inode.iSizeLo.toUInt64 := by
  rw [fileSize, hlink]
  rfl

section Read

variable {dev : Device Id} {rd : Ext4Reader} {inode : Ext4Inode} {inodeNum : UInt32}

theorem Stores.mapBlock {logicalBlock : UInt32} {physBlock : UInt64} (hacc : Accepted rd.blockSize)
    (h : Stores dev rd inode logicalBlock physBlock) :
    ∃ depth, BlockMap.mapBlock dev rd depth inode logicalBlock = pure (some physBlock) := by
  cases h with
  | extent ex uses tree inTree maps place =>
      obtain ⟨r, hplace, depth, hdepth⟩ := tree.lookup logicalBlock
      have hcovers := (covers_iff_maps (ExtentTree.inTree_lt tree inTree) logicalBlock).mpr maps
      have hphys := physical_toNat (UInt32.le_iff_toNat_le.mpr maps.1)
      refine ⟨depth, ?_⟩
      rw [BlockMap.mapBlock, if_pos uses, resolve_of_nodeAnswer (hdepth depth le_rfl),
        (hplace _).mpr ⟨ex, inTree, hcovers, rfl⟩, UInt64.toNat_inj.mp (hphys.trans place.symm)]
  | pointer uses range path =>
      refine ⟨0, ?_⟩
      rw [BlockMap.mapBlock, uses, if_neg Bool.false_ne_true, readIndirectBlock_eq dev hacc inode range,
        path]
      rfl

theorem readSymlinkTarget_short (hinode : readInode dev rd inodeNum = pure (some inode))
    (hshort : inode.iSizeLo.toNat < 60) (fuel : Nat) :
    readSymlinkTarget dev rd fuel inodeNum =
      pure (true, inode.iBlock.take inode.iSizeLo.toNat) := by
  rw [readSymlinkTarget, hinode, pure_bind]
  dsimp only
  by_cases hzero : inode.iSizeLo.toUInt64 = 0
  · have hlen : inode.iSizeLo.toNat = 0 := by
      rw [← UInt32.toNat_toUInt64, hzero]
      rfl
    rw [if_pos (beq_iff_eq.mpr hzero), hlen, List.take_zero]
  · have hlt : inode.iSizeLo.toUInt64 < 60 := by
      rw [UInt64.lt_iff_toNat_lt, UInt32.toNat_toUInt64]
      exact hshort
    rw [if_neg (by rwa [beq_iff_eq]), if_pos hlt, UInt32.toNat_toUInt64]

theorem readSymlinkTarget_long (hinode : readInode dev rd inodeNum = pure (some inode))
    (hlong : 60 ≤ inode.iSizeLo.toNat) (fuel : Nat) :
    readSymlinkTarget dev rd fuel inodeNum =
      readFileData dev rd fuel inodeNum 0 (some (List.replicate (inode.iSizeLo.toNat + 1) 0))
          inode.iSizeLo.toUInt64 >>= fun r =>
        pure (if r.ok then (true, r.buffer.take r.bytesRead.toNat) else (false, [])) := by
  have hlen := UInt32.toNat_toUInt64 inode.iSizeLo
  have hge : ¬inode.iSizeLo.toUInt64 < 60 := by
    rw [UInt64.lt_iff_toNat_lt, hlen]
    exact Nat.not_lt.mpr hlong
  have hne : ¬(inode.iSizeLo.toUInt64 == 0) = true := by
    rw [beq_iff_eq, ← UInt64.toNat_inj, hlen]
    change ¬_ = 0
    omega
  rw [readSymlinkTarget, hinode, pure_bind]
  dsimp only
  rw [if_neg hne, if_neg hge, hlen]
  refine bind_congr fun r => ?_
  cases r.ok <;> rfl

end Read

theorem readSymlinkTarget_stored (disk : Disk) (w : BlockDevice) {rd : Ext4Reader}
    (hmounted : rd.mounted = true) {inodeNum : UInt32} {inode : Ext4Inode}
    (hinode : readInode (disk.device w) rd inodeNum = pure (some inode))
    (hlink : inode.iMode &&& sIfmt = sIflnk) {target : Name}
    (hstored : StoredTarget (disk.device w) rd inode target) :
    ∃ depth, ∀ fuel ≥ depth, readSymlinkTarget (disk.device w) rd fuel inodeNum =
      pure (true, target) := by
  have hsize := hstored.size
  rcases Nat.lt_or_ge target.length 60 with hshort | hlong
  · refine ⟨0, fun fuel _ => ?_⟩
    rw [readSymlinkTarget_short hinode (by omega), hsize, hstored.short hshort]
  · have hacc := (rd.geometry hmounted).1
    have hblocks := hstored.long hlong
    -- the lookups of all blocks of the target, over one map
    have hlookup : ∀ l, (∃ pos < target.length, UInt32.ofNat (pos / rd.blockSize.toNat) = l) →
        ∃ r depth, mapBlock (disk.device w) rd depth inode l = pure r := by
      rintro _ ⟨pos, hlt, rfl⟩
      obtain ⟨physBlock, b, hstores, _⟩ := hblocks pos hlt
      exact ⟨some physBlock, hstores.mapBlock hacc⟩
    choose! map hmap using hlookup
    obtain ⟨bound, hbound⟩ := mapBlock_bounded hmap
    have hdata : ∀ pos (h : pos < target.length),
        IsFileByte (disk.device w) rd map pos target[pos] := by
      intro pos hlt
      obtain ⟨physBlock, b, hstores, hne, hread, hget⟩ := hblocks pos hlt
      obtain ⟨depth, hdepth⟩ := hstores.mapBlock hacc
      have hsome := pure_injective ((mapBlock_mono (le_max_left depth bound) hdepth).symm.trans
        (hbound _ (le_max_right depth bound) _ ⟨pos, hlt, rfl⟩))
      rw [IsFileByte, ← hsome]
      dsimp only
      rw [if_neg hne]
      exact ⟨b, hread, hget⟩
    refine ⟨max bound (target.length + 1), fun fuel hfuel => ?_⟩
    rw [readSymlinkTarget_long hinode (by omega), readFileData_whole disk w hmounted hinode
      (fileSize_symlink hlink) hsize (by omega) (by omega)
      (fun pos hlt => hbound fuel (by omega) _ ⟨pos, hlt, rfl⟩) hdata, pure_bind]
    rw [if_pos rfl, UInt32.toNat_toUInt64, hsize, overlay, List.take_left]

/-- Targets of symbolic links round-trip: what is stored is what is read and reported. -/
theorem symlink_roundtrip (disk : Disk) (w : BlockDevice) (rd : Ext4Reader)
    (hmounted : rd.mounted = true) (inodeNum : UInt32) (inode : Ext4Inode)
    (hinode : readInode (disk.device w) rd inodeNum = pure (some inode))
    (hlink : inode.iMode &&& sIfmt = sIflnk) (target : Name)
    (hstored : StoredTarget (disk.device w) rd inode target) :
    ∃ depth, ∀ fuel ≥ depth,
      readSymlinkTarget (disk.device w) rd fuel inodeNum = pure (true, target) ∧
      ∃ st, statInode (disk.device w) rd fuel inodeNum = pure (some st) ∧ st.isSymlink = true ∧
        st.symlinkTarget = target := by
  obtain ⟨depth, hdepth⟩ := readSymlinkTarget_stored disk w hmounted hinode hlink hstored
  refine ⟨depth, fun fuel hfuel => ⟨hdepth fuel hfuel, ?_⟩⟩
  have htype : (inode.iMode &&& sIfmt == sIflnk) = true := beq_iff_eq.mpr hlink
  rw [statInode, hinode, pure_bind]
  dsimp only
  rw [htype, if_pos rfl, hdepth fuel hfuel, pure_bind]
  exact ⟨_, rfl, rfl, rfl⟩

def linkTarget : Name := List.replicate 60 0x61

def linkDisk : Disk :=
  .ofPieces 16384
    [(2056, le32Bytes 5), (6400, le16Bytes 0xA1FF ++ [0, 0] ++ le32Bytes 60), (6440, le32Bytes 8),
      (8192, linkTarget)]

def linkDevice : Device Id := linkDisk.device wholeDevice

def linkInode : Ext4Inode :=
  (result (readInode linkDevice (plainReader 16) 11)).join.getD (Packed.zero 160)

def linkBlock : List Byte := linkTarget ++ List.replicate 964 0

theorem linkBlock_read : readBlock linkDevice 8 (plainReader 16).blockSize = pure (some linkBlock) :=
  result_eq_some.mp (by decide +kernel)

theorem linkTarget_stored : StoredTarget linkDevice (plainReader 16) linkInode linkTarget where
  size := by decide +kernel
  short h := absurd h (by decide)
  long _ pos hlt := by
    have hlen : pos < 60 := hlt
    have hbs : (plainReader 16).blockSize.toNat = 1024 := rfl
    refine ⟨8, linkBlock, .pointer (by decide +kernel) ?_ ?_, by decide, linkBlock_read, ?_⟩
    · rw [hbs, Nat.div_eq_of_lt (by omega)]
      decide
    · rw [hbs, Nat.div_eq_of_lt (by omega)]
      exact result_eq_some.mp (by decide +kernel)
    · rw [hbs, Nat.mod_eq_of_lt (by omega), linkBlock, List.getElem?_append_left hlt,
        List.getElem?_eq_getElem hlt]

theorem symlink_roundtrip_link : ∃ depth, ∀ fuel ≥ depth,
    readSymlinkTarget linkDevice (plainReader 16) fuel 11 = pure (true, List.replicate 60 0x61) := by
  obtain ⟨depth, hdepth⟩ := symlink_roundtrip linkDisk wholeDevice (plainReader 16) rfl 11 linkInode
    (eq_pure_getD (by decide +kernel) _) (by decide +kernel) linkTarget linkTarget_stored
  exact ⟨depth, fun fuel hfuel => (hdepth fuel hfuel).1⟩

end Linux2Win.Symlinks
