import Linux2Win.DirRecords
import Linux2Win.ReadCalls

namespace Linux2Win.Geometry

open Bytes Devices Ext4Types Reader Programs ReadCalls DirRecords

def is64bitOf (sb : Ext4Superblock) : Bool := sb.sFeatureIncompat &&& featureIncompat64Bit != 0

def descriptorSize (rd : Ext4Reader) : UInt64 := if rd.is64bit && rd.descSize ≥ 64 then 64 else 32

/-- The descriptors are read with the high half of the block of their table. -/
def IsLong (rd : Ext4Reader) : Prop := rd.is64bit = true ∧ 64 ≤ rd.descSize.toNat

instance (rd : Ext4Reader) : Decidable (IsLong rd) :=
  inferInstanceAs (Decidable (rd.is64bit = true ∧ 64 ≤ rd.descSize.toNat))

theorem descriptorSize_toNat (rd : Ext4Reader) :
    (descriptorSize rd).toNat = if IsLong rd then 64 else 32 := by
  have hlong : (rd.is64bit && decide (rd.descSize ≥ 64)) = true ↔ IsLong rd := by
    rw [Bool.and_eq_true, decide_eq_true_eq, ge_iff_le, UInt16.le_iff_toNat_le]
    rfl
  rw [descriptorSize, apply_ite UInt64.toNat]
  exact if_congr hlong rfl rfl

theorem descriptorSize_le {rd : Ext4Reader} (hstride : 32 ≤ rd.descSize.toNat) :
    (descriptorSize rd).toNat ≤ rd.descSize.toNat := by
  rw [descriptorSize_toNat]
  split
  · rename_i h
    exact h.2
  · exact hstride

structure MountedFrom (sb : Ext4Superblock) (rd : Ext4Reader) : Prop where
  sb_eq : rd.sb = sb
  mounted : rd.mounted = true
  blockSize : rd.blockSize = 1024 <<< sb.sLogBlockSize
  is64bit : rd.is64bit = is64bitOf sb
  descSize : rd.descSize =
    if is64bitOf sb then (if sb.sDescSize != 0 then sb.sDescSize else 64) else 32
  blocksPerGroup : sb.sBlocksPerGroup ≠ 0
  groupsCount : rd.groupsCount = ((totalBlocks sb (is64bitOf sb) + sb.sBlocksPerGroup.toUInt64 - 1) /
    sb.sBlocksPerGroup.toUInt64).toUInt32

theorem mount_true {dev : Device Id} {sb : Ext4Superblock} {rd rd' : Ext4Reader}
    (hread : dev superblockOffset 1024 = pure (some sb.bytes))
    (h : mount dev true rd = pure (true, rd')) : MountedFrom sb rd' := by
  rw [mount, hread] at h
  simp only [Bool.not_true, Bool.false_eq_true, if_false, pure_bind, Packed.ofBytes_bytes] at h
  split at h
  · cases pure_injective h
  · split at h
    · cases pure_injective h
    · split at h
      · cases pure_injective h
      · rename_i hbpg
        cases pure_injective h
        exact ⟨rfl, rfl, rfl, rfl, rfl, by simpa using hbpg, rfl⟩

structure Usable (sb : Ext4Superblock) (rd : Ext4Reader) : Prop where
  logBlockSize : sb.sLogBlockSize.toNat ≤ 6
  blockSize : rd.blockSize.toNat = 1024 * 2 ^ sb.sLogBlockSize.toNat
  inodesPerGroup : sb.sInodesPerGroup ≠ 0
  divides : ∀ disk w inodeNum, readInode (Disk.device disk w) rd inodeNum ≠ throw .divideByZero
  stride : 32 ≤ rd.descSize.toNat
  disjoint : ∀ i j : UInt32, i < j →
    (descriptorOffset rd i).toNat + (descriptorSize rd).toNat ≤ (descriptorOffset rd j).toNat
  noWrap : (totalBlocks sb rd.is64bit).toNat + sb.sBlocksPerGroup.toNat < 2 ^ 64
  groups : rd.groupsCount.toNat =
    ((totalBlocks sb rd.is64bit).toNat + sb.sBlocksPerGroup.toNat - 1) / sb.sBlocksPerGroup.toNat

structure FieldsFit (sb : Ext4Superblock) : Prop where
  logBlockSize : sb.sLogBlockSize < 32
  inodesPerGroup : sb.sInodesPerGroup ≠ 0
  descSize : is64bitOf sb = true → sb.sDescSize = 0 ∨ 32 ≤ sb.sDescSize
  total : (totalBlocks sb (is64bitOf sb)).toNat ≤ (2 ^ 32 - 1) * sb.sBlocksPerGroup.toNat

section Mounted

variable {sb : Ext4Superblock} {rd : Ext4Reader}

/-- The shift takes the count modulo 32, so a count from 32 on can pass for a small one. -/
theorem MountedFrom.blockSize_iff (h : MountedFrom sb rd) :
    (sb.sLogBlockSize.toNat ≤ 6 ∧ rd.blockSize.toNat = 1024 * 2 ^ sb.sLogBlockSize.toNat) ↔
      sb.sLogBlockSize < 32 := by
  have hshift : rd.blockSize.toNat = 1024 * 2 ^ (sb.sLogBlockSize.toNat % 32) % 2 ^ 32 := by
    rw [h.blockSize]
    simp [UInt32.toNat_shiftLeft, Nat.shiftLeft_eq]
  obtain ⟨k, hk, hbs⟩ := (rd.geometry h.mounted).1
  have hlow := Nat.two_pow_pos k
  have hhigh : 2 ^ k ≤ 2 ^ 6 := Nat.pow_le_pow_right (by decide) hk
  rw [UInt32.lt_iff_toNat_lt]
  change _ ↔ sb.sLogBlockSize.toNat < 32
  constructor
  · rintro ⟨hle, _⟩
    exact Nat.lt_of_le_of_lt hle (by decide)
  · intro hlt
    rw [Nat.mod_eq_of_lt hlt] at hshift
    obtain ⟨hle, heq⟩ := shift_in_range _ hlt (by omega) (by omega)
    exact ⟨hle, hshift.trans heq⟩

theorem MountedFrom.stride_iff (h : MountedFrom sb rd) :
    32 ≤ rd.descSize.toNat ↔ (is64bitOf sb = true → sb.sDescSize = 0 ∨ 32 ≤ sb.sDescSize) := by
  rw [h.descSize]
  cases is64bitOf sb with
  | false => exact iff_of_true (Nat.le_refl 32) fun h => absurd h Bool.false_ne_true
  | true =>
      by_cases hzero : sb.sDescSize = 0
      · simp [hzero]
      · simp [hzero, UInt16.le_iff_toNat_le]

/-- A stride of at least 32 keeps descriptors apart, whatever their size. -/
theorem descriptors_apart (hacc : Accepted rd.blockSize) (hstride : 32 ≤ rd.descSize.toNat)
    {i j : UInt32} (hij : i < j) :
    (descriptorOffset rd i).toNat + (descriptorSize rd).toNat ≤ (descriptorOffset rd j).toNat := by
  have hsize := descriptorSize_le hstride
  have hnext : (i.toNat + 1) * rd.descSize.toNat ≤ j.toNat * rd.descSize.toNat :=
    Nat.mul_le_mul_right _ (UInt32.lt_iff_toNat_lt.mp hij)
  rw [Nat.succ_mul] at hnext
  rw [descriptorOffset_toNat hacc, descriptorOffset_toNat hacc]
  omega

theorem ceil_lt_iff (total : Nat) {perGroup : Nat} (hpos : 0 < perGroup) :
    (total + perGroup - 1) / perGroup < 2 ^ 32 ↔ total ≤ (2 ^ 32 - 1) * perGroup := by
  rw [Nat.div_lt_iff_lt_mul hpos, Nat.sub_mul, Nat.one_mul]
  have hge : perGroup ≤ 2 ^ 32 * perGroup := Nat.le_mul_of_pos_left _ (by decide)
  omega

theorem MountedFrom.groups_iff (h : MountedFrom sb rd) :
    ((totalBlocks sb rd.is64bit).toNat + sb.sBlocksPerGroup.toNat < 2 ^ 64 ∧
        rd.groupsCount.toNat = ((totalBlocks sb rd.is64bit).toNat + sb.sBlocksPerGroup.toNat - 1) /
          sb.sBlocksPerGroup.toNat) ↔
      (totalBlocks sb (is64bitOf sb)).toNat ≤ (2 ^ 32 - 1) * sb.sBlocksPerGroup.toNat := by
  have hpos : 0 < sb.sBlocksPerGroup.toNat :=
    Nat.pos_of_ne_zero fun h0 => h.blocksPerGroup (UInt32.toNat_inj.mp h0)
  have hceil := ceil_lt_iff (totalBlocks sb (is64bitOf sb)).toNat hpos
  rw [h.is64bit, ← hceil]
  constructor
  · rintro ⟨_, heq⟩
    rw [← heq]
    exact rd.groupsCount.toNat_lt
  · intro hlt
    have htotal := hceil.mp hlt
    have hper := sb.sBlocksPerGroup.toNat_lt
    have hsum : (totalBlocks sb (is64bitOf sb)).toNat + sb.sBlocksPerGroup.toNat < 2 ^ 64 := by omega
    refine ⟨hsum, ?_⟩
    rw [h.groupsCount, UInt64.toNat_toUInt32, UInt64.toNat_div, UInt64.toNat_sub_of_le,
      UInt64.toNat_add, UInt32.toNat_toUInt64, Nat.mod_eq_of_lt hsum, UInt64.toNat_one,
      Nat.mod_eq_of_lt hlt]
    rw [UInt64.le_iff_toNat_le, UInt64.toNat_add, UInt32.toNat_toUInt64, Nat.mod_eq_of_lt hsum]
    change 1 ≤ _
    omega

end Mounted

/-- A mount that returns true has accepted usable geometry exactly when the fields that it
does not check are in range. -/
theorem mount_usable_iff (dev : Device Id) (sb : Ext4Superblock)
    (hread : dev superblockOffset 1024 = pure (some sb.bytes)) (rd rd' : Ext4Reader)
    (hmount : mount dev true rd = pure (true, rd')) : Usable sb rd' ↔ FieldsFit sb := by
  have h := mount_true hread hmount
  have hacc := (rd'.geometry h.mounted).1
  constructor
  · intro hu
    exact ⟨h.blockSize_iff.mp ⟨hu.logBlockSize, hu.blockSize⟩, hu.inodesPerGroup,
      h.stride_iff.mp hu.stride, h.groups_iff.mp ⟨hu.noWrap, hu.groups⟩⟩
  · intro hf
    obtain ⟨hlog, hblock⟩ := h.blockSize_iff.mpr hf.logBlockSize
    obtain ⟨hsum, hgroups⟩ := h.groups_iff.mpr hf.total
    have hstride := h.stride_iff.mpr hf.descSize
    refine ⟨hlog, hblock, hf.inodesPerGroup, ?_, hstride, ?_, hsum, hgroups⟩
    · intro disk w inodeNum hthrow
      obtain ⟨r, hr⟩ := readInode_returns disk w h.mounted (h.sb_eq ▸ hf.inodesPerGroup) inodeNum
      exact throw_ne_pure (hthrow.symm.trans hr)
    · exact fun i j hij => descriptors_apart hacc hstride hij

theorem readInode_divides {dev : Device Id} {rd : Ext4Reader} (hmounted : rd.mounted = true)
    (hgroup : rd.sb.sInodesPerGroup = 0) {inodeNum : UInt32} (hne : inodeNum ≠ 0)
    (hle : inodeNum ≤ rd.sb.sInodesCount) : readInode dev rd inodeNum = throw .divideByZero := by
  have hin : ¬(!rd.mounted || inodeNum == 0 || inodeNum > rd.sb.sInodesCount) = true := by
    simp [hmounted, hne, UInt32.not_lt.mpr hle]
  rw [readInode, if_neg hin, hgroup]
  rfl

def grouplessSuperblock : Ext4Superblock :=
  .ofPieces 1024
    [(0, le32Bytes 16), (4, le32Bytes 16), (32, le32Bytes 8192), (56, le16Bytes superblockMagic)]

def grouplessDevice : Device Id :=
  (Disk.ofPieces 16384
    [(1024, le32Bytes 16 ++ le32Bytes 16), (1056, le32Bytes 8192),
      (1080, le16Bytes superblockMagic)]).device wholeDevice

theorem groupless_read : grouplessDevice superblockOffset 1024 = pure (some grouplessSuperblock.bytes) :=
  result_eq_some.mp (by decide +kernel)

theorem groupless_mounts : ∃ rd, mount grouplessDevice true initial = pure (true, rd) := by
  have hok : (result (mount grouplessDevice true initial)).map Prod.fst = some true := by
    decide +kernel
  obtain ⟨⟨ok, rd⟩, hrun, rfl⟩ := Option.map_eq_some_iff.mp hok
  exact ⟨rd, result_eq_some.mp hrun⟩

theorem mount_usable_iff_groupless : ∃ rd, mount grouplessDevice true initial = pure (true, rd) ∧
    (Usable grouplessSuperblock rd ↔ FieldsFit grouplessSuperblock) := by
  obtain ⟨rd, hmount⟩ := groupless_mounts
  exact ⟨rd, hmount, mount_usable_iff grouplessDevice grouplessSuperblock groupless_read initial rd hmount⟩

theorem groupless_divides : ∃ rd, mount grouplessDevice true initial = pure (true, rd) ∧
    readInode grouplessDevice rd 1 = throw .divideByZero ∧ ¬Usable grouplessSuperblock rd := by
  obtain ⟨rd, hmount⟩ := groupless_mounts
  have h := mount_true groupless_read hmount
  have hgroup : grouplessSuperblock.sInodesPerGroup = 0 := by decide +kernel
  have hcount : grouplessSuperblock.sInodesCount = 16 := by decide +kernel
  refine ⟨rd, hmount, readInode_divides h.mounted (h.sb_eq ▸ hgroup) (by decide) ?_,
    fun hu => hu.inodesPerGroup hgroup⟩
  rw [h.sb_eq, hcount]
  decide

end Linux2Win.Geometry
