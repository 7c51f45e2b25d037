import Linux2Win.FileServing

namespace Linux2Win.Callbacks

open Bytes Devices Reader FileData Guids Vfs DirEnum FileServing

def errorAccessDenied : HResult := hresultFromWin32 5

inductive Notification
  | fileOpened
  | newFileCreated
  | fileOverwritten
  | preDelete
  | preRename
  | preSetHardlink
  | fileRenamed
  | hardlinkCreated
  | fileHandleClosedNoModification
  | fileHandleClosedFileModified
  | fileHandleClosedFileDeleted
  | filePreConvertToFull
  deriving DecidableEq

def notificationCallback (notification : Notification) : HResult :=
  if notification == .fileOpened || notification == .newFileCreated ||
      notification == .fileOverwritten || notification == .preDelete ||
      notification == .preRename || notification == .preSetHardlink then errorAccessDenied
  else sOk

/-- A call that ProjFS makes to a provider, with what the API functions give it. -/
inductive Callback
  | startDirEnum (filePathName : Option WString) (enumerationId : Guid)
  | getDirEnum (enumerationId : Guid) (restart : Bool) (searchExpression : Option WString)
      (buffer : EntryBuffer)
  | endDirEnum (enumerationId : Guid)
  | getPlaceholderInfo (filePathName : Option WString)
  | getFileData (filePathName : Option WString) (byteOffset : UInt64) (length : UInt32)
      (buffer : Option (List Byte))
  | notification (notification : Notification)
  | cancelCommand

/-- What a callback returns, and what it hands on: to the entry buffer, and to
`PrjWritePlaceholderInfo` and `PrjWriteFileData`, whose answer is then that of the callback. -/
inductive Answer
  | status (hr : HResult)
  | entries (hr : HResult) (added : List NodeInfo)
  | placeholder (handed : Except HResult (Option WString × FileBasicInfo))
  | fileData (handed : Except HResult (List Byte))
  | nothing
  deriving DecidableEq

section Tree

variable {m : Type → Type} [Monad m] (fs : FsReader m) (self : Bool)

def nodeAt (found : Option NodeId) (t : VfsTree) : Option NodeInfo :=
  (found.bind fun id => t.nodes[id]?).map VfsNode.info

def getPlaceholderInfoCallback (filePathName : Option WString) (t : VfsTree) :
    m (Except HResult (Option WString × FileBasicInfo) × VfsTree) := do
  if !self then return (.error errorInvalidParameter, t)
  let (found, t) ← findNodeW fs ((filePathName.map cStr).getD []) t
  match nodeAt found t with
  | none => return (.error errorFileNotFound, t)
  | some node => return (.ok (filePathName, basicInfo node), t)

/-- The part of `GetFileDataCallback` that works on the tree. -/
def findFile (filePathName : Option WString) (t : VfsTree) :
    m (Except HResult NodeInfo × VfsTree) := do
  if !self then return (.error errorInvalidParameter, t)
  let (found, t) ← findNodeW fs ((filePathName.map cStr).getD []) t
  match nodeAt found t with
  | none => return (.error errorFileNotFound, t)
  | some node => return (if node.isDirectory then .error errorFileNotFound else .ok node, t)

end Tree

section Sections

variable {m : Type → Type} [Monad m] (dev : Device m) (rd : Ext4Reader) (fuel : Nat)

/-- The part of `GetFileDataCallback` behind the tree. -/
def readFile (file : Except HResult NodeInfo) (byteOffset : UInt64) (length : UInt32)
    (buffer : Option (List Byte)) : ExceptT Fault m (Except HResult (List Byte)) := do
  match file with
  | .error hr => return .error hr
  | .ok node =>
    match buffer with
    | none => return .error errorNotEnoughMemory
    | some buffer =>
      let r ← readFileData dev rd fuel node.inodeNum byteOffset (some buffer) length.toUInt64
      if !r.ok then return .error errorReadFault
      return .ok (r.buffer.take r.bytesRead.toUInt32.toNat)

inductive Pending
  | insert (captured : Except HResult (List NodeInfo)) (enumerationId : Guid)
  | get (self : Bool) (enumerationId : Guid) (restart : Bool) (searchExpression : Option WString)
      (buffer : EntryBuffer)
  | erase (enumerationId : Guid)
  | read (file : Except HResult NodeInfo) (byteOffset : UInt64) (length : UInt32)
      (buffer : Option (List Byte))
  | done (answer : Answer)

/-- The work of a callback on the tree of its mount. -/
def enter (self : Bool) : Callback → VfsTree → ExceptT Fault m (Pending × VfsTree)
  | .startDirEnum filePathName enumerationId, t => do
      let (captured, t) ← captureChildren (ext4 dev rd fuel) self filePathName t
      return (.insert captured enumerationId, t)
  | .getDirEnum enumerationId restart searchExpression buffer, t =>
      return (.get self enumerationId restart searchExpression buffer, t)
  | .endDirEnum enumerationId, t => return (.erase enumerationId, t)
  | .getPlaceholderInfo filePathName, t => do
      let (handed, t) ← getPlaceholderInfoCallback (ext4 dev rd fuel) self filePathName t
      return (.done (.placeholder handed), t)
  | .getFileData filePathName byteOffset length buffer, t => do
      let (file, t) ← findFile (ext4 dev rd fuel) self filePathName t
      return (.read file byteOffset length buffer, t)
  | .notification notification, t => return (.done (.status (notificationCallback notification)), t)
  | .cancelCommand, t => return (.done .nothing, t)

/-- The rest of a callback: under the session mutex, or on the device alone. -/
def leave (fileNameMatch : Option (WString → WString → Bool)) :
    Pending → Sessions → ExceptT Fault m (Answer × Sessions)
  | .insert captured enumerationId, sessions =>
      let r := startSession captured enumerationId sessions
      return (.status r.1, r.2)
  | .get self enumerationId restart searchExpression buffer, sessions =>
      let r := getDirEnumCallback fileNameMatch self enumerationId restart searchExpression buffer
        sessions
      return (.entries r.1 r.2.1, r.2.2)
  | .erase enumerationId, sessions =>
      let r := endDirEnumCallback enumerationId sessions
      return (.status r.1, r.2)
  | .read file byteOffset length buffer, sessions => do
      let handed ← readFile dev rd fuel file byteOffset length buffer
      return (.fileData handed, sessions)
  | .done answer, sessions => return (answer, sessions)

/-- The two parts make up the callbacks. -/
theorem startDirEnumCallback_parts (self : Bool) (filePathName : Option WString) (id : Guid)
    (t : VfsTree) (sessions : Sessions) :
    startDirEnumCallback (ext4 dev rd fuel) self filePathName id t sessions =
      captureChildren (ext4 dev rd fuel) self filePathName t >>= fun r =>
        pure ((startSession r.1 id sessions).1, r.2, (startSession r.1 id sessions).2) := rfl

theorem getFileDataCallback_parts [LawfulMonad m] (self : Bool) (filePathName : Option WString)
    (byteOffset : UInt64) (length : UInt32) (buffer : Option (List Byte)) (t : VfsTree) :
    getFileDataCallback dev rd fuel self filePathName byteOffset length buffer t =
      findFile (ext4 dev rd fuel) self filePathName t >>= fun r =>
        (fun handed => (handed, r.2)) <$> readFile dev rd fuel r.1 byteOffset length buffer := by
  rw [getFileDataCallback, findFile]
  cases self with
  | false => simp [readFile]
  | true =>
      simp only [Bool.not_true, Bool.false_eq_true, if_false, bind_assoc]
      congr 1
      funext found
      rw [nodeAt]
      cases found.1.bind fun id => found.2.nodes[id]? with
      | none => simp [readFile]
      | some node =>
          cases hdir : node.info.isDirectory with
          | true => simp [readFile, hdir]
          | false =>
              cases buffer with
              | none => simp [readFile, hdir]
              | some buffer =>
                  simp only [hdir, Option.map_some, Bool.false_eq_true, if_false, pure_bind, readFile,
                    map_bind]
                  congr 1
                  funext r
                  cases r.ok <;> simp

end Sections

section Threads

structure Mount (m : Type → Type) where
  dev : Device m
  rd : Ext4Reader

variable {m : Type → Type} [Monad m] {ι : Type}

/-- A callback for one of the mounts; `self` tells whether its context leads to the mount. -/
structure Request (ι : Type) where
  mount : ι
  self : Bool
  callback : Callback

structure Provider (ι : Type) where
  trees : ι → VfsTree
  sessions : Sessions
  threads : Nat → Option (ι × Pending)

def start (ι : Type) : Provider ι := ⟨fun _ => Vfs.empty, ∅, fun _ => none⟩

/-- A thread that is free takes up a request, or one that has taken one up completes it. -/
inductive Turn (ι : Type)
  | enter (thread : Nat) (request : Request ι)
  | leave (thread : Nat)

variable [DecidableEq ι] (mounts : ι → Mount m) (fuel : Nat)
  (fileNameMatch : Option (WString → WString → Bool))

/-- Turns that the thread is not there for pass without effect. -/
def step (s : Provider ι) : Turn ι → ExceptT Fault m (List Answer × Provider ι)
  | .enter thread request =>
    match s.threads thread with
    | some _ => return ([], s)
    | none => do
      let (pending, t) ← enter (mounts request.mount).dev (mounts request.mount).rd fuel request.self
        request.callback (s.trees request.mount)
      return ([], { s with
        trees := Function.update s.trees request.mount t
        threads := Function.update s.threads thread (some (request.mount, pending)) })
  | .leave thread =>
    match s.threads thread with
    | none => return ([], s)
    | some (mount, pending) => do
      let (answer, sessions) ←
        leave (mounts mount).dev (mounts mount).rd fuel fileNameMatch pending s.sessions
      return ([answer], { s with sessions, threads := Function.update s.threads thread none })

def run (s : Provider ι) : List (Turn ι) → ExceptT Fault m (List Answer)
  | [] => return []
  | turn :: turns => do
      let (answers, s) ← step mounts fuel fileNameMatch s turn
      let later ← run s turns
      return answers ++ later

def completed (threads : Nat → Option (Request ι)) : List (Turn ι) → List (Request ι)
  | [] => []
  | .enter thread request :: turns =>
    match threads thread with
    | some _ => completed threads turns
    | none => completed (Function.update threads thread (some request)) turns
  | .leave thread :: turns =>
    match threads thread with
    | none => completed threads turns
    | some request => request :: completed (Function.update threads thread none) turns

end Threads

end Linux2Win.Callbacks
