import Linux2Win.ExtentTree

namespace Linux2Win.ExtentMap

open Bytes Devices Ext4Types Reader BlockMap Programs ExtentTree

def blockCount (ex : Ext4Extent) : Nat :=
  if ex.eeLen.toNat > 32768 then ex.eeLen.toNat - 32768 else ex.eeLen.toNat

/-- Where an extent lies on the device: a block number of 48 bits. -/
def firstBlock (ex : Ext4Extent) : Nat := ex.eeStartHi.toNat * 2 ^ 32 + ex.eeStartLo.toNat

def Maps (ex : Ext4Extent) (logicalBlock : UInt32) : Prop :=
  ex.eeBlock.toNat ≤ logicalBlock.toNat ∧ logicalBlock.toNat < ex.eeBlock.toNat + blockCount ex

theorem len_toNat (ex : Ext4Extent) : ex.len.toNat = blockCount ex := by
  rw [Ext4Extent.len, blockCount]
  by_cases h : ex.eeLen ≤ 32768
  · have hle : ex.eeLen.toNat ≤ 32768 := UInt16.le_iff_toNat_le.mp h
    rw [if_pos h, if_neg (by omega)]
  · have hlt : 32768 < ex.eeLen.toNat := UInt16.lt_iff_toNat_lt.mp (UInt16.not_le.mp h)
    rw [if_neg h, if_pos hlt]
    exact UInt16.toNat_sub_of_le _ _ (UInt16.le_iff_toNat_le.mpr hlt.le)

theorem covers_iff_maps {ex : Ext4Extent} (h : extentEnd ex < 2 ^ 32) (logicalBlock : UInt32) :
    ex.covers logicalBlock = true ↔ Maps ex logicalBlock := by
  rw [covers_iff h, Spans, extentEnd, len_toNat, Maps]

theorem start_toNat (ex : Ext4Extent) : ex.start.toNat = firstBlock ex := by
  have hhi := ex.eeStartHi.toNat_lt
  have hlo := ex.eeStartLo.toNat_lt
  rw [Ext4Extent.start, UInt64.toNat_or, UInt64.toNat_shiftLeft, UInt32.toNat_toUInt64,
    UInt16.toNat_toUInt64]
  change _ ||| ex.eeStartHi.toNat <<< 32 % 2 ^ 64 = _
  rw [Nat.mod_eq_of_lt (by rw [Nat.shiftLeft_eq]; omega), Nat.or_comm,
    ← Nat.shiftLeft_add_eq_or_of_lt hlo, Nat.shiftLeft_eq, firstBlock]

theorem physical_toNat {ex : Ext4Extent} {logicalBlock : UInt32}
    (h : ex.eeBlock ≤ logicalBlock) :
    (ex.physical logicalBlock).toNat = firstBlock ex + (logicalBlock.toNat - ex.eeBlock.toNat) := by
  have hhi := ex.eeStartHi.toNat_lt
  have hlo := ex.eeStartLo.toNat_lt
  have hl := logicalBlock.toNat_lt
  rw [Ext4Extent.physical, UInt64.toNat_add, start_toNat, UInt32.toNat_toUInt64,
    UInt32.toNat_sub_of_le _ _ h, firstBlock]
  exact Nat.mod_eq_of_lt (by omega)

/-- The lookup in the inode against the extents of the tree. An extent ends behind its
last block, at 2^32 - 1 at the most. -/
theorem resolveExtentBlock_spec (dev : Device Id) (rd : Ext4Reader) (inode : Ext4Inode)
    (htree : SearchTree dev rd inode.iBlock) (logicalBlock : UInt32) :
    ∃ r, (∃ depth, ∀ fuel ≥ depth, resolveExtentBlock dev rd fuel inode logicalBlock = pure r) ∧
      (r.isSome = true ↔ ∃ ex, InTree dev rd ex inode.iBlock ∧ Maps ex logicalBlock) ∧
      ∀ ex physBlock, InTree dev rd ex inode.iBlock → Maps ex logicalBlock → r = some physBlock →
        physBlock.toNat = firstBlock ex + (logicalBlock.toNat - ex.eeBlock.toNat) := by
  obtain ⟨r, hplace, depth, hdepth⟩ := htree.lookup logicalBlock
  have hmaps : ∀ ex, InTree dev rd ex inode.iBlock →
      (ex.covers logicalBlock = true ↔ Maps ex logicalBlock) := fun ex hex =>
    covers_iff_maps (inTree_lt htree hex) logicalBlock
  refine ⟨r, ⟨depth, fun fuel hfuel => resolve_of_nodeAnswer (hdepth fuel hfuel)⟩, ⟨?_, ?_⟩, ?_⟩
  · intro hsome
    obtain ⟨physBlock, rfl⟩ := Option.isSome_iff_exists.mp hsome
    obtain ⟨ex, hex, hcov, _⟩ := (hplace physBlock).mp rfl
    exact ⟨ex, hex, (hmaps ex hex).mp hcov⟩
  · rintro ⟨ex, hex, hmap⟩
    rw [(hplace _).mpr ⟨ex, hex, (hmaps ex hex).mpr hmap, rfl⟩]
    rfl
  · rintro ex physBlock hex hmap hr
    have hphys := (hplace _).mpr ⟨ex, hex, (hmaps ex hex).mpr hmap, rfl⟩
    rw [hr] at hphys
    rw [Option.some.inj hphys]
    exact physical_toNat (UInt32.le_iff_toNat_le.mpr hmap.1)

def leafHead : Nat → List Byte
  | 0 => le16Bytes 0xF30A ++ le16Bytes 2 ++ le16Bytes 84 ++ List.replicate 6 0 ++
      (le32Bytes 0 ++ le16Bytes 5 ++ le16Bytes 0 ++ le32Bytes 20) ++
      (le32Bytes 10 ++ le16Bytes 32770 ++ le16Bytes 1 ++ le32Bytes 30)
  | _ => le16Bytes 0xF30A ++ le16Bytes 1 ++ le16Bytes 84 ++ List.replicate 6 0 ++
      (le32Bytes 100 ++ le16Bytes 3 ++ le16Bytes 0 ++ le32Bytes 40)

def twoLeaves (i : Nat) : List Byte := zeroPad 1024 (leafHead i)

def twoLeavesDisk : Disk :=
  .ofPieces 16384
    [(2056, le32Bytes 5), (6400, le16Bytes 0x8180), (6432, le32Bytes 0x00080000),
      (6440, le16Bytes 0xF30A ++ le16Bytes 2 ++ le16Bytes 4 ++ le16Bytes 1),
      (6452, le32Bytes 0 ++ le32Bytes 9), (6464, le32Bytes 100 ++ le32Bytes 10),
      (9216, leafHead 0), (10240, leafHead 1)]

def twoLeavesDevice : Device Id := twoLeavesDisk.device wholeDevice

def twoLeavesInode : Ext4Inode :=
  (result (readInode twoLeavesDevice (plainReader 16) 11)).join.getD (Packed.zero 160)

theorem twoLeaves_read : ∀ i < entries twoLeavesInode.iBlock,
    readBlock twoLeavesDevice (extentIdxAt twoLeavesInode.iBlock i).leaf
      (plainReader 16).blockSize = pure (some (twoLeaves i)) := by
  have hread : ∀ i < entries twoLeavesInode.iBlock,
      result (readBlock twoLeavesDevice (extentIdxAt twoLeavesInode.iBlock i).leaf
        (plainReader 16).blockSize) = some (some (twoLeaves i)) := by decide +kernel
  exact fun i hi => result_eq_some.mp (hread i hi)

theorem twoLeaves_searchTree : SearchTree twoLeavesDevice (plainReader 16) twoLeavesInode.iBlock := by
  have hheader : ∀ i < entries twoLeavesInode.iBlock,
      (extentHeader (twoLeaves i)).ehMagic = extentMagic ∧
        12 + 12 * entries (twoLeaves i) ≤ (twoLeaves i).length ∧
        (extentHeader (twoLeaves i)).ehDepth = 0 := by decide +kernel
  have hrange : ∀ i < entries twoLeavesInode.iBlock, ∀ k < entries (twoLeaves i),
      childStart twoLeavesInode.iBlock 1000 i ≤ (extentAt (twoLeaves i) k).eeBlock.toNat ∧
        extentEnd (extentAt (twoLeaves i) k) ≤ childStart twoLeavesInode.iBlock 1000 (i + 1) := by
    decide +kernel
  have hordered : ∀ i < entries twoLeavesInode.iBlock, ∀ k < entries (twoLeaves i), ∀ j < k,
      extentEnd (extentAt (twoLeaves i) j) ≤ (extentAt (twoLeaves i) k).eeBlock.toNat := by
    decide +kernel
  have htree : WellFormed twoLeavesDevice (plainReader 16) twoLeavesInode.iBlock 0 1000 := by
    refine .index twoLeaves ⟨by decide +kernel, by decide +kernel⟩ (by decide +kernel)
      (by decide +kernel) (by decide +kernel) twoLeaves_read fun i hi => ?_
    obtain ⟨hmagic, hfits, hdepth⟩ := hheader i hi
    exact .leaf ⟨hmagic, hfits⟩ hdepth (hrange i hi) fun j k hjk hk => hordered i hi k hk j hjk
  exact htree.searchTree (by decide)

theorem resolveExtentBlock_spec_twoLeaves : ∃ physBlock, physBlock.toNat = 2 ^ 32 + 31 ∧
    ∃ depth, ∀ fuel ≥ depth,
      resolveExtentBlock twoLeavesDevice (plainReader 16) fuel twoLeavesInode 11 =
        pure (some physBlock) := by
  have hex : InTree twoLeavesDevice (plainReader 16) ⟨10, 32770, 1, 30⟩ twoLeavesInode.iBlock :=
    .index (by decide +kernel) (by decide +kernel : 0 < _) (twoLeaves_read 0 (by decide +kernel))
      (.leaf (by decide +kernel) (by decide +kernel : 1 < _) (by decide +kernel))
  have hmaps : Maps ⟨10, 32770, 1, 30⟩ 11 := by
    constructor
    · decide
    · decide
  obtain ⟨r, hr, hsome, hphys⟩ := resolveExtentBlock_spec twoLeavesDevice (plainReader 16)
    twoLeavesInode twoLeaves_searchTree 11
  obtain ⟨physBlock, rfl⟩ := Option.isSome_iff_exists.mp (hsome.mpr ⟨_, hex, hmaps⟩)
  exact ⟨physBlock, hphys _ physBlock hex hmaps rfl, hr⟩

end Linux2Win.ExtentMap
