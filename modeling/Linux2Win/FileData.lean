import Linux2Win.BlockMap

namespace Linux2Win.FileData

open Bytes Devices Ext4Types Reader BlockMap

/-- The high half of the size counts for regular files only. -/
def fileSize (inode : Ext4Inode) : UInt64 :=
  if inode.iMode &&& sIfmt == sIfreg then
    inode.iSizeLo.toUInt64 ||| (inode.iSizeHigh.toUInt64 <<< 32)
  else inode.iSizeLo.toUInt64

/-- What a call leaves behind: its return value, the caller's buffer and `*bytes_read`. -/
structure ReadResult where
  ok : Bool
  buffer : List Byte
  bytesRead : UInt64
  deriving DecidableEq, Repr

def overlay (written buffer : List Byte) : List Byte := written ++ buffer.drop written.length

section Operations

variable {m : Type → Type} [Monad m] (dev : Device m) (rd : Ext4Reader)

def blockBytes (mapped : Option UInt64) (blockOffset toCopy : UInt32) :
    ExceptT Fault m (Option (List Byte)) := do
  match mapped with
  | some physBlock =>
    if physBlock != 0 then
      return (← readBlock dev physBlock rd.blockSize).map
        fun blockBuf => (blockBuf.drop blockOffset.toNat).take toCopy.toNat
    else return some (List.replicate toCopy.toNat 0)
  | none => return some (List.replicate toCopy.toNat 0)

/-- The loop of `read_file_data`. `written` holds the bytes stored so far, so that
`dst` points just behind them. -/
def copyLoop (inode : Ext4Inode) (depth : Nat) :
    Nat → UInt64 → UInt64 → List Byte → ExceptT Fault m (Bool × List Byte)
  | 0, _, _, _ => throw .outOfFuel
  | fuel + 1, currOffset, remaining, written => do
      if remaining == 0 then return (true, written)
      let logicalBlock := (currOffset / rd.blockSize.toUInt64).toUInt32
      let blockOffset := (currOffset % rd.blockSize.toUInt64).toUInt32
      let toCopy := min remaining.toUInt32 (rd.blockSize - blockOffset)
      let mapped ← mapBlock dev rd depth inode logicalBlock
      match ← blockBytes dev rd mapped blockOffset toCopy with
      | none => return (false, written)
      | some bytes =>
        copyLoop inode depth fuel (currOffset + toCopy.toUInt64) (remaining - toCopy.toUInt64)
          (written ++ bytes)

/-- `buffer` is none for a null pointer. One amount of fuel bounds both the copy
loop and the depth of the extent recursion. -/
def readFileData (fuel : Nat) (inodeNum : UInt32) (offset : UInt64) (buffer : Option (List Byte))
    (size : UInt64) : ExceptT Fault m ReadResult := do
  match buffer with
  | none => return ⟨false, [], 0⟩
  | some buffer =>
    if !rd.mounted || size == 0 then return ⟨false, buffer, 0⟩
    match ← readInode dev rd inodeNum with
    | none => return ⟨false, buffer, 0⟩
    | some inode =>
      if offset ≥ fileSize inode then return ⟨true, buffer, 0⟩
      let actualSize := if offset + size > fileSize inode then fileSize inode - offset else size
      match ← copyLoop dev rd inode fuel fuel offset actualSize [] with
      | (false, written) => return ⟨false, overlay written buffer, 0⟩
      | (true, written) => return ⟨true, overlay written buffer, actualSize⟩

end Operations

end Linux2Win.FileData
