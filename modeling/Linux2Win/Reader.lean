import Linux2Win.Devices
import Linux2Win.Ext4Types

namespace Linux2Win.Reader

open Bytes Devices Ext4Types

/-- The block sizes that `mount` lets through. -/
def Accepted (blockSize : UInt32) : Prop := ∃ k ≤ 6, blockSize.toNat = 1024 * 2 ^ k

theorem Accepted.bounds {blockSize : UInt32} (h : Accepted blockSize) :
    0 < blockSize.toNat ∧ blockSize.toNat ≤ 65536 := by
  obtain ⟨k, hk, hbs⟩ := h
  have hpos := Nat.two_pow_pos k
  have hle : 2 ^ k ≤ 2 ^ 6 := Nat.pow_le_pow_right (by decide) hk
  omega

theorem Accepted.dvd {blockSize : UInt32} (h : Accepted blockSize) : blockSize.toNat ∣ 2 ^ 64 := by
  obtain ⟨k, hk, hbs⟩ := h
  rw [hbs, show 1024 = 2 ^ 10 from rfl, ← Nat.pow_add]
  exact Nat.pow_dvd_pow 2 (by omega)

/-- The state of a reader. Only a mounted reader promises a usable geometry. -/
structure Ext4Reader where
  sb : Ext4Superblock
  blockSize : UInt32
  inodeSize : UInt32
  groupsCount : UInt32
  descSize : UInt16
  is64bit : Bool
  hasExtents : Bool
  mounted : Bool
  geometry : mounted = true → Accepted blockSize ∧ 0 < inodeSize ∧ inodeSize ≤ blockSize

def initial : Ext4Reader := ⟨Packed.zero 1024, 4096, 256, 0, 32, false, false, false, nofun⟩

def unmount (rd : Ext4Reader) : Ext4Reader :=
  { rd with sb := Packed.zero 1024, mounted := false, geometry := nofun }

def totalBlocks (sb : Ext4Superblock) (is64bit : Bool) : UInt64 :=
  if is64bit then sb.sBlocksCountLo.toUInt64 ||| (sb.sBlocksCountHi.toUInt64 <<< 32)
  else sb.sBlocksCountLo.toUInt64

theorem shift_in_range : ∀ k < 32, 1024 ≤ 1024 * 2 ^ k % 2 ^ 32 → 1024 * 2 ^ k % 2 ^ 32 ≤ 65536 →
    k ≤ 6 ∧ 1024 * 2 ^ k % 2 ^ 32 = 1024 * 2 ^ k := by
  decide

/-- The shift of `mount` takes its count modulo 32 on the target, as the shift of
`UInt32` does, so the range check leaves only the seven powers of two. -/
theorem accepted_of_range {shift : UInt32} (h : ¬((1024 : UInt32) <<< shift < 1024 ∨
    (1024 : UInt32) <<< shift > 65536)) : Accepted (1024 <<< shift) := by
  have hs : ((1024 : UInt32) <<< shift).toNat = 1024 * 2 ^ (shift.toNat % 32) % 2 ^ 32 := by
    simp [UInt32.toNat_shiftLeft, Nat.shiftLeft_eq]
  simp only [not_or, gt_iff_lt, UInt32.not_lt, UInt32.le_iff_toNat_le, hs] at h
  obtain ⟨hk, he⟩ := shift_in_range _ (Nat.mod_lt _ (by decide)) h.1 h.2
  exact ⟨_, hk, hs.trans he⟩

/-- An inode size of zero or above the block size falls back to 128. -/
def inodeSizeOf (sb : Ext4Superblock) (blockSize : UInt32) : UInt32 :=
  let inodeSize := if sb.sRevLevel ≥ 1 then sb.sInodeSize.toUInt32 else 128
  if inodeSize == 0 || inodeSize > blockSize then 128 else inodeSize

theorem inodeSizeOf_range (sb : Ext4Superblock) {blockSize : UInt32} (h : Accepted blockSize) :
    0 < inodeSizeOf sb blockSize ∧ inodeSizeOf sb blockSize ≤ blockSize := by
  obtain ⟨k, _, hk⟩ := h
  have hp : 0 < 2 ^ k := Nat.two_pow_pos k
  dsimp only [inodeSizeOf]
  generalize (if sb.sRevLevel ≥ 1 then sb.sInodeSize.toUInt32 else 128) = n
  simp only [UInt32.lt_iff_toNat_lt, UInt32.le_iff_toNat_le, hk]
  split
  · exact ⟨by decide, by change 128 ≤ _; omega⟩
  · rename_i hn
    simp only [Bool.or_eq_true, beq_iff_eq, decide_eq_true_eq, not_or] at hn
    exact ⟨Nat.pos_of_ne_zero fun h0 => hn.1 (UInt32.toNat_inj.mp h0), by omega⟩

section Operations

variable {m : Type → Type} [Monad m] (dev : Device m)

/-- `isOpen` is the check of the handle that comes before the first read. -/
def mount (isOpen : Bool) (rd : Ext4Reader) : ExceptT Fault m (Bool × Ext4Reader) := do
  let rd := unmount rd
  if !isOpen then return (false, rd)
  match ← dev superblockOffset 1024 with
  | none => return (false, rd)
  | some b =>
    let sb : Ext4Superblock := Packed.ofBytes 1024 b
    let rd := { rd with sb := sb, mounted := false, geometry := nofun }
    if sb.sMagic != superblockMagic then return (false, rd)
    if h : (1024 : UInt32) <<< sb.sLogBlockSize < 1024 ∨ (1024 : UInt32) <<< sb.sLogBlockSize > 65536 then
      return (false, { rd with blockSize := 1024 <<< sb.sLogBlockSize, mounted := false, geometry := nofun })
    else
      let is64bit := sb.sFeatureIncompat &&& featureIncompat64Bit != 0
      let descSize := if is64bit then (if sb.sDescSize != 0 then sb.sDescSize else 64) else 32
      let bpg := sb.sBlocksPerGroup
      let mounted : Ext4Reader :=
        { sb := sb
          blockSize := 1024 <<< sb.sLogBlockSize
          inodeSize := inodeSizeOf sb (1024 <<< sb.sLogBlockSize)
          groupsCount := ((totalBlocks sb is64bit + bpg.toUInt64 - 1) / bpg.toUInt64).toUInt32
          descSize := descSize
          is64bit := is64bit
          hasExtents := sb.sFeatureIncompat &&& featureIncompatExtents != 0
          mounted := true
          geometry := fun _ => ⟨accepted_of_range h, inodeSizeOf_range sb (accepted_of_range h)⟩ }
      if bpg == 0 then
        return (false, { mounted with groupsCount := rd.groupsCount, mounted := false, geometry := nofun })
      return (true, mounted)

def readGroupDescriptor (rd : Ext4Reader) (groupIdx : UInt32) :
    ExceptT Fault m (Option Ext4GroupDesc64) := do
  if !rd.mounted || groupIdx ≥ rd.groupsCount then return none
  let gdtStartByte := (if rd.blockSize == 1024 then 2 else 1) * rd.blockSize.toUInt64
  let descByteOffset := gdtStartByte + groupIdx.toUInt64 * rd.descSize.toUInt64
  let size := if rd.is64bit && rd.descSize ≥ 64 then 64 else 32
  return (← dev descByteOffset size).map (Packed.ofBytes 64)

def inodeTableBlock (rd : Ext4Reader) (gd : Ext4GroupDesc64) : UInt64 :=
  if rd.is64bit then gd.bgInodeTableLo.toUInt64 ||| (gd.bgInodeTableHi.toUInt64 <<< 32)
  else gd.bgInodeTableLo.toUInt64

def readInode (rd : Ext4Reader) (inodeNum : UInt32) : ExceptT Fault m (Option Ext4Inode) := do
  if !rd.mounted || inodeNum == 0 || inodeNum > rd.sb.sInodesCount then return none
  if rd.sb.sInodesPerGroup == 0 then throw .divideByZero
  let inodeIdx := inodeNum - 1
  match ← readGroupDescriptor dev rd (inodeIdx / rd.sb.sInodesPerGroup) with
  | none => return none
  | some gd =>
    let indexInGroup := inodeIdx % rd.sb.sInodesPerGroup
    let inodeByteOffset := inodeTableBlock rd gd * rd.blockSize.toUInt64 +
      indexInGroup.toUInt64 * rd.inodeSize.toUInt64
    return (← dev inodeByteOffset rd.inodeSize.toUInt64).map (Packed.ofBytes 160)

end Operations

def plainReader (inodesCount : UInt32) : Ext4Reader :=
  { sb := Packed.ofPieces 1024 [(0, le32Bytes inodesCount), (40, le32Bytes inodesCount)]
    blockSize := 1024
    inodeSize := 128
    groupsCount := 1
    descSize := 32
    is64bit := false
    hasExtents := true
    mounted := true
    geometry := fun _ => ⟨⟨0, by decide, by decide⟩, by decide, by decide⟩ }

theorem plainReader_accepted (inodesCount : UInt32) : Accepted (plainReader inodesCount).blockSize :=
  ⟨0, by decide, rfl⟩

def wholeDevice : BlockDevice := opened false 0 0

end Linux2Win.Reader
