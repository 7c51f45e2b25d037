import Linux2Win.FileData

namespace Linux2Win.Directory

open Bytes Devices Ext4Types Reader FileData

/-- A `std::string`: the paths and names of the source are byte strings. -/
abbrev Name := List Byte

structure DirEntryInfo where
  inode : UInt32
  name : Name
  fileType : Byte
  isDirectory : Bool
  isSymlink : Bool
  deriving DecidableEq, Repr

structure FileStat where
  inodeNum : UInt32
  size : UInt64
  mode : UInt32
  uid : UInt32
  gid : UInt32
  atime : UInt32
  mtime : UInt32
  ctime : UInt32
  crtime : UInt32
  isDirectory : Bool
  isRegular : Bool
  isSymlink : Bool
  symlinkTarget : Name
  deriving DecidableEq, Repr

def slash : Byte := 0x2F
def backslash : Byte := 0x5C
def dot : Byte := 0x2E

def isSeparator (c : Byte) : Bool := c == slash || c == backslash

/-- One turn of the character loop of `lookup_path`, over `parts` and `current`. -/
def splitStep (s : List Name × Name) (c : Byte) : List Name × Name :=
  if isSeparator c then (if s.2.isEmpty then s else (s.1 ++ [s.2], []))
  else (s.1, s.2 ++ [c])

def pathParts (path : Name) : List Name :=
  let s := path.foldl splitStep ([], [])
  if s.2.isEmpty then s.1 else s.1 ++ [s.2]

/-- The spellings of the root that `lookup_path` knows as whole paths. -/
def isRootPath (path : Name) : Bool :=
  path.isEmpty || path == [slash] || path == [backslash] || path == [dot]

/-- Each part of the path is looked up by its exact name, without any cache. -/
def lookupParts {m : Type → Type} [Monad m] (listDirectory : UInt32 → m (Option (List DirEntryInfo))) :
    UInt32 → List Name → m (Option UInt32)
  | currInode, [] => pure (some currInode)
  | currInode, part :: parts => do
      match ← listDirectory currInode with
      | none => return none
      | some entries =>
        match entries.find? (·.name == part) with
        | none => return none
        | some e => lookupParts listDirectory e.inode parts

section Operations

variable {m : Type → Type} [Monad m] (dev : Device m) (rd : Ext4Reader) (fuel : Nat)

def readSymlinkTarget (inodeNum : UInt32) : ExceptT Fault m (Bool × Name) := do
  match ← readInode dev rd inodeNum with
  | none => return (false, [])
  | some inode =>
    let size := inode.iSizeLo.toUInt64
    if size == 0 then return (true, [])
    if size < 60 then return (true, inode.iBlock.take size.toNat)
    let r ← readFileData dev rd fuel inodeNum 0 (some (List.replicate (size.toNat + 1) 0)) size
    if r.ok then return (true, r.buffer.take r.bytesRead.toNat)
    return (false, [])

def statInode (inodeNum : UInt32) : ExceptT Fault m (Option FileStat) := do
  match ← readInode dev rd inodeNum with
  | none => return none
  | some inode =>
    let type := inode.iMode &&& sIfmt
    let isSymlink := type == sIflnk
    let target ← if isSymlink then readSymlinkTarget dev rd fuel inodeNum else pure (true, [])
    return some
      { inodeNum := inodeNum
        size := fileSize inode
        mode := inode.iMode.toUInt32
        uid := inode.iUid.toUInt32 ||| (inode.iUidHigh.toUInt32 <<< 16)
        gid := inode.iGid.toUInt32 ||| (inode.iGidHigh.toUInt32 <<< 16)
        atime := inode.iAtime
        mtime := inode.iMtime
        ctime := inode.iCtime
        crtime := if rd.inodeSize > 128 then inode.iCrtime else inode.iMtime
        isDirectory := type == sIfdir
        isRegular := type == sIfreg
        isSymlink := isSymlink
        symlinkTarget := target.2 }

/-- The entry of a live record. An entry without a file type takes its type from
the inode it names, when that can be read. -/
def dirEntry (inode : UInt32) (name : Name) (fileType : Byte) : ExceptT Fault m DirEntryInfo := do
  let info : DirEntryInfo := ⟨inode, name, fileType, fileType == 2, fileType == 7⟩
  if fileType == 0 then
    match ← readInode dev rd inode with
    | none => return info
    | some child =>
      let type := child.iMode &&& sIfmt
      return { info with isDirectory := type == sIfdir, isSymlink := type == sIflnk }
  return info

/-- What the loop of `list_directory` takes from the record at `offset`. -/
def recordEntry (content : List Byte) (offset : Nat) : ExceptT Fault m (Option DirEntryInfo) := do
  let inode := le32 content offset
  let nameLen := byteAt content (offset + 6)
  if inode == 0 || nameLen == 0 then return none
  if content.length < offset + 8 + nameLen.toNat then throw .outOfBounds
  let name := (content.drop (offset + 8)).take nameLen.toNat
  if name == [dot] || name == [dot, dot] then return none
  return some (← dirEntry dev rd inode name (byteAt content (offset + 7)))

def scanDirectory (content : List Byte) (bytesRead : Nat) :
    Nat → Nat → List DirEntryInfo → ExceptT Fault m (List DirEntryInfo)
  | 0, _, _ => throw .outOfFuel
  | turns + 1, offset, entries => do
      if bytesRead < offset + 8 then return entries
      let recLen := le16 content (offset + 4)
      if recLen == 0 then return entries
      let found ← recordEntry dev rd content offset
      scanDirectory content bytesRead turns (offset + recLen.toNat) (entries ++ found.toList)

/-- A record length of at least one bounds the turns of the loop by the bytes read. -/
def listDirectory (dirInodeNum : UInt32) : ExceptT Fault m (Option (List DirEntryInfo)) := do
  if !rd.mounted then return none
  match ← readInode dev rd dirInodeNum with
  | none => return none
  | some inode =>
    if inode.iMode &&& sIfmt != sIfdir then return none
    let dirSize := inode.iSizeLo.toUInt64
    if dirSize == 0 then return some []
    let r ← readFileData dev rd fuel dirInodeNum 0 (some (List.replicate dirSize.toNat 0)) dirSize
    if !r.ok then return none
    return some (← scanDirectory dev rd r.buffer r.bytesRead.toNat (r.bytesRead.toNat + 1) 0 [])

def lookupPath (path : Name) : ExceptT Fault m (Option UInt32) := do
  if !rd.mounted then return none
  if isRootPath path then return some 2
  lookupParts (listDirectory dev rd fuel) 2 (pathParts path)

def statPath (path : Name) : ExceptT Fault m (Option FileStat) := do
  match ← lookupPath dev rd fuel path with
  | none => return none
  | some inum => statInode dev rd fuel inum

def listDirectoryPath (path : Name) : ExceptT Fault m (Option (List DirEntryInfo)) := do
  match ← lookupPath dev rd fuel path with
  | none => return none
  | some inum => listDirectory dev rd fuel inum

def readFileByPath (path : Name) (offset : UInt64) (buffer : Option (List Byte)) (size : UInt64) :
    ExceptT Fault m ReadResult := do
  match ← lookupPath dev rd fuel path with
  | none => return ⟨false, buffer.getD [], 0⟩
  | some inum => readFileData dev rd fuel inum offset buffer size

end Operations

end Linux2Win.Directory
