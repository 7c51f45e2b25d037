import Linux2Win.Bytes

namespace Linux2Win.Ext4Types

open Bytes

abbrev Ext4Superblock := Packed 1024

namespace Ext4Superblock

variable (sb : Ext4Superblock)

def sInodesCount : UInt32 := sb.u32 0
def sBlocksCountLo : UInt32 := sb.u32 4
def sLogBlockSize : UInt32 := sb.u32 24
def sBlocksPerGroup : UInt32 := sb.u32 32
def sInodesPerGroup : UInt32 := sb.u32 40
def sMagic : UInt16 := sb.u16 56
def sRevLevel : UInt32 := sb.u32 76
def sInodeSize : UInt16 := sb.u16 88
def sFeatureCompat : UInt32 := sb.u32 92
def sFeatureIncompat : UInt32 := sb.u32 96
def sUuid : List Byte := sb.field 104 16
def sVolumeName : List Byte := sb.field 120 16
def sDescSize : UInt16 := sb.u16 254
def sBlocksCountHi : UInt32 := sb.u32 336

end Ext4Superblock

def superblockMagic : UInt16 := 0xEF53
def superblockOffset : UInt64 := 1024
def featureIncompatExtents : UInt32 := 0x0040
def featureIncompat64Bit : UInt32 := 0x0080

/-- A 32-byte descriptor is one whose upper half is zero. -/
abbrev Ext4GroupDesc64 := Packed 64

namespace Ext4GroupDesc64

variable (gd : Ext4GroupDesc64)

def bgInodeTableLo : UInt32 := gd.u32 8
def bgInodeTableHi : UInt32 := gd.u32 40

end Ext4GroupDesc64

abbrev Ext4Inode := Packed 160

namespace Ext4Inode

variable (inode : Ext4Inode)

def iMode : UInt16 := inode.u16 0
def iUid : UInt16 := inode.u16 2
def iSizeLo : UInt32 := inode.u32 4
def iAtime : UInt32 := inode.u32 8
def iCtime : UInt32 := inode.u32 12
def iMtime : UInt32 := inode.u32 16
def iGid : UInt16 := inode.u16 24
def iFlags : UInt32 := inode.u32 32
def iBlock : List Byte := inode.field 40 60
def iSizeHigh : UInt32 := inode.u32 108
def iUidHigh : UInt16 := inode.u16 120
def iGidHigh : UInt16 := inode.u16 122
def iCrtime : UInt32 := inode.u32 144

@[simp] theorem iBlock_length : inode.iBlock.length = 60 := inode.field_length 40 60 (by decide)

end Ext4Inode

def sIfmt : UInt16 := 0xF000
def sIflnk : UInt16 := 0xA000
def sIfreg : UInt16 := 0x8000
def sIfdir : UInt16 := 0x4000

def extentsFl : UInt32 := 0x00080000

def extentMagic : UInt16 := 0xF30A

structure Ext4ExtentHeader where
  ehMagic : UInt16
  ehEntries : UInt16
  ehDepth : UInt16
  deriving DecidableEq, Repr

def extentHeader (node : List Byte) : Ext4ExtentHeader := ⟨le16 node 0, le16 node 2, le16 node 6⟩

structure Ext4ExtentIdx where
  eiBlock : UInt32
  eiLeafLo : UInt32
  eiLeafHi : UInt16
  deriving DecidableEq, Repr

structure Ext4Extent where
  eeBlock : UInt32
  eeLen : UInt16
  eeStartHi : UInt16
  eeStartLo : UInt32
  deriving DecidableEq, Repr

def extentIdxAt (node : List Byte) (i : Nat) : Ext4ExtentIdx :=
  ⟨le32 node (12 + 12 * i), le32 node (12 + 12 * i + 4), le16 node (12 + 12 * i + 8)⟩

def extentAt (node : List Byte) (i : Nat) : Ext4Extent :=
  ⟨le32 node (12 + 12 * i), le16 node (12 + 12 * i + 4), le16 node (12 + 12 * i + 6),
    le32 node (12 + 12 * i + 8)⟩

namespace Ext4ExtentIdx

def leaf (idx : Ext4ExtentIdx) : UInt64 := idx.eiLeafLo.toUInt64 ||| (idx.eiLeafHi.toUInt64 <<< 32)

end Ext4ExtentIdx

namespace Ext4Extent

/-- A length above 32768 marks an unwritten extent; both copies of the leaf loop
take the mark off. -/
def len (ex : Ext4Extent) : UInt16 := if ex.eeLen ≤ 32768 then ex.eeLen else ex.eeLen - 32768

def start (ex : Ext4Extent) : UInt64 := ex.eeStartLo.toUInt64 ||| (ex.eeStartHi.toUInt64 <<< 32)

def covers (ex : Ext4Extent) (logicalBlock : UInt32) : Bool :=
  logicalBlock ≥ ex.eeBlock && logicalBlock < ex.eeBlock + ex.len.toUInt32

def physical (ex : Ext4Extent) (logicalBlock : UInt32) : UInt64 :=
  ex.start + (logicalBlock - ex.eeBlock).toUInt64

end Ext4Extent

end Linux2Win.Ext4Types
