import Linux2Win.Reader

namespace Linux2Win.BlockMap

open Bytes Devices Ext4Types Reader

/-- What one extent node says about a logical block: the answer, or the block of
the node to read next. -/
inductive NodeStep
  | done (physicalBlock : Option UInt64)
  | child (block : UInt64)
  deriving DecidableEq, Repr

/-- The leaf loop from entry `i` on, with `n` entries left. An entry that is not
wholly inside the node is an access outside the buffer. -/
def scanExtents (node : List Byte) (logicalBlock : UInt32) : Nat → Nat → Except Fault (Option UInt64)
  | _, 0 => .ok none
  | i, n + 1 =>
      if node.length < 12 + 12 * i + 12 then .error .outOfBounds
      else
        let ex := extentAt node i
        if ex.covers logicalBlock then .ok (some (ex.physical logicalBlock))
        else scanExtents node logicalBlock (i + 1) n

def scanIndex (node : List Byte) (logicalBlock : UInt32) :
    Nat → Nat → Option Ext4ExtentIdx → Except Fault (Option Ext4ExtentIdx)
  | _, 0, chosen => .ok chosen
  | i, n + 1, chosen =>
      if node.length < 12 + 12 * i + 12 then .error .outOfBounds
      else
        let idx := extentIdxAt node i
        if logicalBlock ≥ idx.eiBlock then scanIndex node logicalBlock (i + 1) n (some idx)
        else .ok chosen

def descend : Option Ext4ExtentIdx → NodeStep
  | some idx => .child idx.leaf
  | none => .done none

/-- The search that `resolve_extent_block` does in the inode and `parse_extent_node`
repeats in each block it reads. -/
def searchNode (node : List Byte) (logicalBlock : UInt32) : Except Fault NodeStep :=
  let eh := extentHeader node
  if eh.ehMagic != extentMagic then .ok (.done none)
  else if eh.ehDepth == 0 then
    (scanExtents node logicalBlock 0 eh.ehEntries.toNat).map .done
  else
    (scanIndex node logicalBlock 0 eh.ehEntries.toNat none).map descend

/-- A pointer of zero stands for a block that is not there. -/
def present (pointer : UInt32) : Option UInt64 :=
  if pointer == 0 then none else some pointer.toUInt64

def pointerAt (block : List Byte) (i : Nat) : UInt32 := le32 block (4 * i)

section Operations

variable {m : Type → Type} [Monad m] (dev : Device m) (rd : Ext4Reader)

/-- Nothing in the source bounds the recursion: without fuel it has not returned. -/
def parseExtentNode : Nat → UInt64 → UInt32 → ExceptT Fault m (Option UInt64)
  | 0, _, _ => throw .outOfFuel
  | fuel + 1, blockNum, logicalBlock => do
      match ← readBlock dev blockNum rd.blockSize with
      | none => return none
      | some node =>
        match searchNode node logicalBlock with
        | .error f => throw f
        | .ok (.done r) => return r
        | .ok (.child next) => parseExtentNode fuel next logicalBlock

def resolveExtentBlock (fuel : Nat) (inode : Ext4Inode) (logicalBlock : UInt32) :
    ExceptT Fault m (Option UInt64) :=
  match searchNode inode.iBlock logicalBlock with
  | .error f => throw f
  | .ok (.done r) => pure r
  | .ok (.child next) => parseExtentNode dev rd fuel next logicalBlock

/-- Entry `i` of a pointer block; none when the block is absent or unreadable. -/
def readPointer (block : UInt32) (i : UInt32) : ExceptT Fault m (Option UInt32) := do
  if block == 0 then return none
  return (← readBlock dev block.toUInt64 rd.blockSize).map (pointerAt · i.toNat)

def readIndirectBlock (inode : Ext4Inode) (logicalBlock : UInt32) :
    ExceptT Fault m (Option UInt64) := do
  let direct := pointerAt inode.iBlock
  if logicalBlock < 12 then return present (direct logicalBlock.toNat)
  let ptrsPerBlock := rd.blockSize / 4
  let logicalBlock := logicalBlock - 12
  if logicalBlock < ptrsPerBlock then
    return (← readPointer dev rd (direct 12) logicalBlock).bind present
  let logicalBlock := logicalBlock - ptrsPerBlock
  let ptrsSq := ptrsPerBlock * ptrsPerBlock
  if logicalBlock < ptrsSq then
    match ← readPointer dev rd (direct 13) (logicalBlock / ptrsPerBlock) with
    | none => return none
    | some indBlock =>
      return (← readPointer dev rd indBlock (logicalBlock % ptrsPerBlock)).bind present
  return none

def usesExtents (inode : Ext4Inode) : Bool := inode.iFlags &&& extentsFl != 0

/-- The mapping that the copy loop of `read_file_data` asks for each block. -/
def mapBlock (fuel : Nat) (inode : Ext4Inode) (logicalBlock : UInt32) :
    ExceptT Fault m (Option UInt64) :=
  if usesExtents inode then resolveExtentBlock dev rd fuel inode logicalBlock
  else readIndirectBlock dev rd inode logicalBlock

end Operations

end Linux2Win.BlockMap
