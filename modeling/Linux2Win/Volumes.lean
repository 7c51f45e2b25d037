import Linux2Win.Listings
import Linux2Win.NodeWalk
import Linux2Win.PathNames

namespace Linux2Win.Volumes

open Bytes Ext4Types Directory Vfs Listings NodeTree NodeWalk PathNames

structure Entry where
  name : Name
  inode : UInt32
  fileType : Byte
  deriving DecidableEq

inductive Content
  | directory (size : UInt32) (entries : List Entry)
  | regular (bytes : List Byte)
  | symlink (target : Name)
  | special (size : UInt32)

namespace Content

def isDirectory : Content → Bool
  | .directory .. => true
  | _ => false

def isRegular : Content → Bool
  | .regular _ => true
  | _ => false

def isSymlink : Content → Bool
  | .symlink _ => true
  | _ => false

def size : Content → Nat
  | .directory size _ => size.toNat
  | .regular bytes => bytes.length
  | .symlink target => target.length
  | .special size => size.toNat

def target : Content → Name
  | .symlink target => target
  | _ => []

end Content

structure Node where
  mode : UInt16
  uid : UInt32
  gid : UInt32
  atime : UInt32
  mtime : UInt32
  ctime : UInt32
  crtime : UInt32
  content : Content
  directory_mode : (mode &&& sIfmt == sIfdir) = content.isDirectory
  regular_mode : (mode &&& sIfmt == sIfreg) = content.isRegular
  symlink_mode : (mode &&& sIfmt == sIflnk) = content.isSymlink

/-- A volume in its own terms. The root is a directory, and entries lead to inodes of
the type that they state, if they state one. -/
structure Volume where
  node : UInt32 → Option Node
  root : ∃ n, node 2 = some n ∧ n.content.isDirectory = true
  names : ∀ d n size entries, node d = some n → n.content = .directory size entries →
    ∀ e ∈ entries, e.inode ≠ 0 ∧ ListedName e.name
  linked : ∀ d n size entries, node d = some n → n.content = .directory size entries →
    ∀ e ∈ entries, ∃ child, node e.inode = some child ∧
      (e.fileType ≠ 0 → (e.fileType == 2) = child.content.isDirectory ∧
        (e.fileType == 7) = child.content.isSymlink)

namespace Volume

variable (v : Volume)

def entries (d : UInt32) : Option (List Entry) :=
  (v.node d).bind fun n =>
    match n.content with
    | .directory _ entries => some entries
    | _ => none

def follow (same : Name → Name → Bool) : List Name → UInt32 → Option UInt32
  | [], d => some d
  | part :: parts, d =>
      (v.entries d).bind fun entries =>
        (entries.find? fun e => same e.name part).bind fun e => follow same parts e.inode

/-- Only as a whole path does the dot stand for the root. -/
def lookup (path : Name) : Option UInt32 :=
  if path = [dot] then some 2 else v.follow (· == ·) (pathParts path) 2

def stat (inodeNum : UInt32) : Option FileStat :=
  (v.node inodeNum).map fun n =>
    { inodeNum := inodeNum
      size := UInt64.ofNat n.content.size
      mode := n.mode.toUInt32
      uid := n.uid
      gid := n.gid
      atime := n.atime
      mtime := n.mtime
      ctime := n.ctime
      crtime := n.crtime
      isDirectory := n.content.isDirectory
      isRegular := n.content.isRegular
      isSymlink := n.content.isSymlink
      symlinkTarget := n.content.target }

def entryInfo (e : Entry) : DirEntryInfo :=
  ⟨e.inode, e.name, e.fileType, ((v.node e.inode).map (·.content.isDirectory)).getD false,
    ((v.node e.inode).map (·.content.isSymlink)).getD false⟩

def list (d : UInt32) : Option (List DirEntryInfo) := (v.entries d).map (List.map v.entryInfo)

/-- The bytes of a regular file from an offset on, cut at its end. -/
def read (inodeNum : UInt32) (offset size : Nat) : Option (List Byte) :=
  (v.node inodeNum).bind fun n =>
    match n.content with
    | .regular bytes => some ((bytes.drop offset).take size)
    | _ => none

def reader : FsReader Id := ⟨true, v.stat, v.list⟩

variable {v}

theorem entries_eq_some {d : UInt32} {entries : List Entry} : v.entries d = some entries ↔
    ∃ n size, v.node d = some n ∧ n.content = .directory size entries := by
  rw [Volume.entries, Option.bind_eq_some_iff]
  constructor
  · rintro ⟨n, hn, h⟩
    cases hc : n.content with
    | directory size entries' =>
        rw [hc] at h
        cases h
        exact ⟨n, size, hn, hc⟩
    | regular bytes => rw [hc] at h; cases h
    | symlink target => rw [hc] at h; cases h
    | special size => rw [hc] at h; cases h
  · rintro ⟨n, size, hn, hc⟩
    exact ⟨n, hn, by rw [hc]⟩

theorem entry_node {d : UInt32} {entries : List Entry} (h : v.entries d = some entries) {e : Entry}
    (he : e ∈ entries) : ∃ child, v.node e.inode = some child ∧
      (e.fileType ≠ 0 → (e.fileType == 2) = child.content.isDirectory ∧
        (e.fileType == 7) = child.content.isSymlink) := by
  obtain ⟨n, size, hn, hc⟩ := entries_eq_some.mp h
  exact v.linked d n size entries hn hc e he

theorem lookupParts_follow (parts : List Name) (d : UInt32) :
    lookupParts (m := Id) v.list d parts = v.follow (· == ·) parts d := by
  induction parts generalizing d with
  | nil => rfl
  | cons part parts ih =>
      rw [lookupParts, follow, Volume.list]
      cases v.entries d with
      | none => rfl
      | some entries =>
          have hfind : (entries.map v.entryInfo).find? (·.name == part) =
              (entries.find? (·.name == part)).map v.entryInfo := List.find?_map ..
          rw [Option.bind_some]
          dsimp only [bind, Option.map_some]
          rw [hfind]
          cases entries.find? (·.name == part) with
          | none => rfl
          | some e => exact ih e.inode

end Volume

end Linux2Win.Volumes
