import Linux2Win.Directory
import Linux2Win.Guids
import Mathlib.Data.List.AList
import Mathlib.Data.List.DropRight

namespace Linux2Win.Vfs

open Bytes Devices Reader Directory

structure Filetime where
  lowDateTime : UInt32
  highDateTime : UInt32
  deriving DecidableEq, Repr

def unixEpochToFiletime (unixTime : UInt32) : Filetime :=
  let ftVal : UInt64 := unixTime.toUInt64 * 10000000 + 116444736000000000
  ⟨(ftVal &&& 0xFFFFFFFF).toUInt32, (ftVal >>> 32).toUInt32⟩

def attributeReadonly : UInt32 := 0x1
def attributeDirectory : UInt32 := 0x10
def attributeNormal : UInt32 := 0x80

/-- The fields of a node that never change once the node is in the tree. -/
structure NodeInfo where
  name : Name
  relativePath : Name
  inodeNum : UInt32
  fileSize : UInt64
  fileAttributes : UInt32
  creationTime : Filetime
  lastAccessTime : Filetime
  lastWriteTime : Filetime
  isDirectory : Bool
  isSymlink : Bool
  deriving DecidableEq, Repr

/-- A shared pointer to a node is its index in the list of all nodes. -/
abbrev NodeId := Nat

structure VfsNode where
  info : NodeInfo
  childrenLoaded : Bool
  children : List NodeId
  deriving DecidableEq, Repr

structure VfsTree where
  nodes : List VfsNode
  root : Option NodeId
  nodeCache : AList fun _ : Name => NodeId

def empty : VfsTree := ⟨[], none, ∅⟩

/-- One turn of the loop of `normalize_path`, over `norm`. -/
def normStep (norm : Name) (c : Byte) : Name :=
  if isSeparator c then
    if !norm.isEmpty && norm.getLast? != some backslash then norm ++ [backslash] else norm
  else norm ++ [c]

def normalizePath (path : Name) : Name :=
  ((path.foldl normStep []).dropWhile (· == backslash)).rdropWhile (· == backslash)

def splitNorm (part : Name) : Name → List Name
  | [] => if part.isEmpty then [] else [part]
  | c :: cs => if c == backslash then part :: splitNorm [] cs else splitNorm (part ++ [c]) cs

/-- `_stricmp` looks at C strings, in the "C" locale. -/
def stricmp (a b : Name) : Bool :=
  (a.takeWhile (· != 0)).map Guids.toLower == (b.takeWhile (· != 0)).map Guids.toLower

def rootInfo (rootStat : FileStat) : NodeInfo :=
  { name := []
    relativePath := []
    inodeNum := 2
    fileSize := rootStat.size
    fileAttributes := attributeDirectory ||| attributeReadonly
    creationTime := unixEpochToFiletime rootStat.crtime
    lastAccessTime := unixEpochToFiletime rootStat.atime
    lastWriteTime := unixEpochToFiletime rootStat.mtime
    isDirectory := true
    isSymlink := false }

def childInfo (parent : NodeInfo) (entry : DirEntryInfo) (st : FileStat) : NodeInfo :=
  { name := entry.name
    relativePath :=
      if parent.relativePath.isEmpty then entry.name
      else parent.relativePath ++ [backslash] ++ entry.name
    inodeNum := entry.inode
    fileSize := st.size
    fileAttributes :=
      attributeReadonly ||| (if st.isDirectory then attributeDirectory else attributeNormal)
    creationTime := unixEpochToFiletime st.crtime
    lastAccessTime := unixEpochToFiletime st.atime
    lastWriteTime := unixEpochToFiletime st.mtime
    isDirectory := st.isDirectory
    isSymlink := st.isSymlink }

structure FsReader (m : Type → Type) where
  isMounted : Bool
  statInode : UInt32 → m (Option FileStat)
  listDirectory : UInt32 → m (Option (List DirEntryInfo))

def ext4 {m : Type → Type} [Monad m] (dev : Device m) (rd : Ext4Reader) (fuel : Nat) :
    FsReader (ExceptT Fault m) :=
  ⟨rd.mounted, Directory.statInode dev rd fuel, Directory.listDirectory dev rd fuel⟩

namespace VfsTree

def addRoot (t : VfsTree) (rootStat : FileStat) : VfsTree :=
  { nodes := t.nodes ++ [⟨rootInfo rootStat, false, []⟩]
    root := some t.nodes.length
    nodeCache := t.nodeCache.insert [] t.nodes.length }

def clearChildren (t : VfsTree) (parent : NodeId) : VfsTree :=
  { t with nodes := t.nodes.modify parent fun n => { n with children := [] } }

def markLoaded (t : VfsTree) (parent : NodeId) : VfsTree :=
  { t with nodes := t.nodes.modify parent fun n => { n with childrenLoaded := true } }

def addChild (t : VfsTree) (parent : NodeId) (info : NodeInfo) : VfsTree :=
  { t with
    nodes := (t.nodes.modify parent fun n => { n with children := n.children ++ [t.nodes.length] }) ++
      [⟨info, false, []⟩]
    nodeCache := t.nodeCache.insert (normalizePath info.relativePath) t.nodes.length }

def childNodes (t : VfsTree) (id : NodeId) : List (NodeId × NodeInfo) :=
  match t.nodes[id]? with
  | none => []
  | some n => n.children.filterMap fun c => t.nodes[c]?.map fun child => (c, child.info)

end VfsTree

section Operations

variable {m : Type → Type} [Monad m] (fs : FsReader m)

def getRoot (t : VfsTree) : m (Option NodeId × VfsTree) := do
  if t.root.isNone && fs.isMounted then
    match ← fs.statInode 2 with
    | none => return (t.root, t)
    | some rootStat => return ((t.addRoot rootStat).root, t.addRoot rootStat)
  return (t.root, t)

/-- The loop of `ensure_children_loaded`: an entry whose stat fails is passed over. -/
def loadEntries (parent : NodeId) (parentInfo : NodeInfo) : List DirEntryInfo → VfsTree → m VfsTree
  | [], t => pure t
  | entry :: entries, t => do
      match ← fs.statInode entry.inode with
      | none => loadEntries parent parentInfo entries t
      | some st =>
        loadEntries parent parentInfo entries (t.addChild parent (childInfo parentInfo entry st))

/-- A pointer that leads to no node is a null pointer. -/
def ensureChildrenLoaded (parent : NodeId) (t : VfsTree) : m (Bool × VfsTree) := do
  match t.nodes[parent]? with
  | none => return (false, t)
  | some node =>
    if !node.info.isDirectory then return (false, t)
    if node.childrenLoaded then return (true, t)
    match ← fs.listDirectory node.info.inodeNum with
    | none => return (false, t)
    | some entries =>
      let t ← loadEntries fs parent node.info entries (t.clearChildren parent)
      return (true, t.markLoaded parent)

/-- The walk of `find_node` from a node on: the first child whose name agrees up to
the case of its letters is taken, and no other one is tried. -/
def walk : List Name → NodeId → VfsTree → m (Option NodeId × VfsTree)
  | [], current, t => pure (some current, t)
  | part :: parts, current, t => do
      match t.nodes[current]? with
      | none => return (none, t)
      | some node =>
        if !node.info.isDirectory then return (none, t)
        let (_, t) ← ensureChildrenLoaded fs current t
        match (t.childNodes current).find? fun c => stricmp c.2.name part with
        | none => return (none, t)
        | some next => walk parts next.1 t

/-- A lock that the calling thread already holds is taken again. -/
def findNode (relativePath : Name) (t : VfsTree) : m (Option NodeId × VfsTree) := do
  let norm := normalizePath relativePath
  if norm.isEmpty then getRoot fs t
  else
    match t.nodeCache.lookup norm with
    | some id => return (some id, t)
    | none =>
      let (root, t) ← getRoot fs t
      match root with
      | none => return (none, t)
      | some r => walk fs (splitNorm [] norm) r t

end Operations

end Linux2Win.Vfs
