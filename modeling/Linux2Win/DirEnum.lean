import Linux2Win.Vfs

namespace Linux2Win.DirEnum

open Bytes Guids Directory Vfs

abbrev HResult := UInt32

def hresultFromWin32 (x : UInt32) : HResult := (x &&& 0xFFFF) ||| 0x80070000

def failed (hr : HResult) : Bool := hr ≥ 0x80000000

def sOk : HResult := 0
def errorFileNotFound : HResult := hresultFromWin32 2
def errorNoMoreFiles : HResult := hresultFromWin32 18
def errorInvalidParameter : HResult := hresultFromWin32 87
def errorInsufficientBuffer : HResult := hresultFromWin32 122

abbrev WString := List UInt16

def cStr (w : WString) : WString := w.takeWhile (· != 0)

def narrowPath (path : WString) : Name := path.map UInt16.toUInt8

structure FileBasicInfo where
  isDirectory : Bool
  fileSize : Int64
  creationTime : Filetime
  lastAccessTime : Filetime
  lastWriteTime : Filetime
  changeTime : Filetime
  fileAttributes : UInt32
  deriving DecidableEq

def basicInfo (entry : NodeInfo) : FileBasicInfo :=
  { isDirectory := entry.isDirectory
    fileSize := entry.fileSize.toInt64
    creationTime := entry.creationTime
    lastAccessTime := entry.lastAccessTime
    lastWriteTime := entry.lastWriteTime
    changeTime := entry.lastWriteTime
    fileAttributes := entry.fileAttributes ||| attributeReadonly }

structure DirEnumSession where
  searchExpression : WString
  matchingEntries : List NodeInfo
  currentIndex : Nat

abbrev Sessions := AList fun _ : Guid => DirEnumSession

/-- The answers of `PrjFillDirEntryBuffer` during one callback, to a name and its
info when some entries have been added. -/
abbrev EntryBuffer := List NodeInfo → WString → FileBasicInfo → HResult

section Callbacks

-- `PrjFileNameMatch` takes a name and a pattern; the library may lack it.
variable (fileNameMatch : Option (WString → WString → Bool))

def matchesExpression (expression : WString) (entry : NodeInfo) : Bool :=
  if !expression.isEmpty && expression != [0x2A] then
    match fileNameMatch with
    | some fileNameMatch => fileNameMatch (cStr (widen entry.name)) (cStr expression)
    | none => true
  else true

/-- The loop of `GetDirEnumCallback` over the entries from `index` on. -/
def fillEntries (expression : WString) (buffer : EntryBuffer) :
    List NodeInfo → Nat → List NodeInfo → HResult × Nat × List NodeInfo
  | [], index, added => (if added.isEmpty then errorNoMoreFiles else sOk, index, added)
  | entry :: entries, index, added =>
      if !matchesExpression fileNameMatch expression entry then
        fillEntries expression buffer entries (index + 1) added
      else
        let hr := buffer added (cStr (widen entry.name)) (basicInfo entry)
        if hr == errorInsufficientBuffer then (if added.isEmpty then hr else sOk, index, added)
        else if failed hr then (hr, index, added)
        else fillEntries expression buffer entries (index + 1) (added ++ [entry])

/-- The expression a call passes on: none for a null or an empty text. -/
def passedExpression (searchExpression : Option WString) : Option WString :=
  (searchExpression.map cStr).filter fun w => !w.isEmpty

/-- The session at the start of the loop of a call. -/
def enterCall (restart : Bool) (searchExpression : Option WString) (session : DirEnumSession) :
    DirEnumSession :=
  { session with
    currentIndex := if restart then 0 else session.currentIndex
    searchExpression := (passedExpression searchExpression).getD session.searchExpression }

def callSession (restart : Bool) (searchExpression : Option WString) (buffer : EntryBuffer)
    (session : DirEnumSession) : HResult × List NodeInfo × DirEnumSession :=
  let session := enterCall restart searchExpression session
  let (hr, index, added) := fillEntries fileNameMatch session.searchExpression buffer
    (session.matchingEntries.drop session.currentIndex) session.currentIndex []
  (hr, added, { session with currentIndex := index })

/-- `self` tells whether the context of the callback leads to a mount. -/
def getDirEnumCallback (self : Bool) (enumerationId : Guid) (restart : Bool)
    (searchExpression : Option WString) (buffer : EntryBuffer) (sessions : Sessions) :
    HResult × List NodeInfo × Sessions :=
  if !self then (errorInvalidParameter, [], sessions)
  else
    match sessions.lookup enumerationId with
    | none => (errorInvalidParameter, [], sessions)
    | some session =>
      let (hr, added, session) := callSession fileNameMatch restart searchExpression buffer session
      (hr, added, sessions.insert enumerationId session)

/-- The last part of `StartDirEnumCallback`, which the session mutex guards. -/
def startSession (captured : Except HResult (List NodeInfo)) (enumerationId : Guid)
    (sessions : Sessions) : HResult × Sessions :=
  match captured with
  | .error hr => (hr, sessions)
  | .ok children => (sOk, sessions.insert enumerationId ⟨[], children, 0⟩)

def endDirEnumCallback (enumerationId : Guid) (sessions : Sessions) : HResult × Sessions :=
  (sOk, sessions.erase enumerationId)

end Callbacks

section Start

variable {m : Type → Type} [Monad m] (fs : FsReader m)

def findNodeW (relativePath : WString) (t : VfsTree) : m (Option NodeId × VfsTree) :=
  findNode fs (narrowPath relativePath) t

/-- The part of `StartDirEnumCallback` that works on the tree. -/
def captureChildren (self : Bool) (filePathName : Option WString) (t : VfsTree) :
    m (Except HResult (List NodeInfo) × VfsTree) := do
  if !self then return (.error errorInvalidParameter, t)
  let (found, t) ← findNodeW fs ((filePathName.map cStr).getD []) t
  match found.bind fun id => t.nodes[id]?.map fun node => (id, node) with
  | none => return (.error errorFileNotFound, t)
  | some (id, node) =>
    if !node.info.isDirectory then return (.error errorFileNotFound, t)
    let (_, t) ← ensureChildrenLoaded fs id t
    return (.ok ((t.childNodes id).map Prod.snd), t)

def startDirEnumCallback (self : Bool) (filePathName : Option WString) (enumerationId : Guid)
    (t : VfsTree) (sessions : Sessions) : m (HResult × VfsTree × Sessions) := do
  let (captured, t) ← captureChildren fs self filePathName t
  let (hr, sessions) := startSession captured enumerationId sessions
  return (hr, t, sessions)

end Start

end Linux2Win.DirEnum
