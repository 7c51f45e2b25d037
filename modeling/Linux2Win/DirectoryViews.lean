import Linux2Win.EnumSessions
import Linux2Win.Enumerator
import Linux2Win.OpenedEntries
import Linux2Win.ServedFiles

namespace Linux2Win.DirectoryViews

open Bytes Devices Reader Guids Directory Partitions Enumerator Programs Vfs NodeTree NodeWalk TreeCalls
open Resolvers DirEnum EnumSessions Callbacks Transducers Provider Volumes StoredVolumes ServedFiles
open OpenedEntries

inductive EntryType
  | dir | symlink | file
  deriving DecidableEq, Repr

/-- A line of a listing. A directory is shown without a size, and a target behind an arrow. -/
structure Row where
  inode : UInt32
  type : EntryType
  size : Option UInt64
  name : Name
  target : Option Name
  deriving DecidableEq, Repr

def entryType (isDirectory isSymlink : Bool) : EntryType :=
  if isDirectory then .dir else if isSymlink then .symlink else .file

def listedSize (isDirectory : Bool) (size : UInt64) : Option UInt64 :=
  if isDirectory then none else some size

def listRow (entry : DirEntryInfo) (st : FileStat) : Row where
  inode := entry.inode
  type := entryType entry.isDirectory entry.isSymlink
  size := listedSize entry.isDirectory st.size
  name := entry.name
  target := if entry.isSymlink && !st.symlinkTarget.isEmpty then some st.symlinkTarget else none

def unread : FileStat := ⟨0, 0, 0, 0, 0, 0, 0, 0, 0, false, false, false, []⟩

inductive Listing
  | diskNotFound (diskIdx : UInt32)
  | partitionNotFound (partIdx : UInt32)
  | excluded
  | cannotOpen
  | cannotMount
  | notListed (path : Name)
  | listed (path : Name) (diskIdx partIdx : UInt32) (rows : List Row)
  deriving DecidableEq, Repr

def queryPath (path : Name) : Name := if path.isEmpty then [slash] else path

section Command

variable {m : Type → Type} [Monad m]

/-- The loop over the entries. Whether an inode can be read is not looked at. -/
def listRows (dev : Device m) (rd : Ext4Reader) (fuel : Nat) (entries : List DirEntryInfo) :
    ExceptT Fault m (List Row) :=
  entries.mapM fun entry => do
    let st ← statInode dev rd fuel entry.inode
    return listRow entry (st.getD unread)

/-- Only the first partition with the number is looked at. -/
def cmdLs (inspect : UInt32 → Option DiskInfo) (createFile : Bool → Bool) (raw : BlockDevice → Device m)
    (fuel : Nat) (diskIdx partIdx : UInt32) (path : Name) : ExceptT Fault m Listing := do
  match inspect diskIdx with
  | none => return .diskNotFound diskIdx
  | some disk =>
    match disk.partitions.find? fun part => part.partitionNumber == partIdx with
    | none => return .partitionNotFound partIdx
    | some part =>
      if cmdLsRefuses part then return .excluded
      match openReadOnly createFile part.startingOffset part.totalLength with
      | none => return .cannotOpen
      | some w =>
        let (ok, rd) ← mount (raw w) w.isOpen initial
        if !ok then return .cannotMount
        match ← listDirectoryPath (raw w) rd fuel (queryPath path) with
        | none => return .notListed (queryPath path)
        | some entries =>
          let rows ← listRows (raw w) rd fuel entries
          return .listed (queryPath path) diskIdx partIdx rows

end Command

section Volumes

variable {disk : Disk} {w : BlockDevice} {rd : Ext4Reader} {v : Volume} {fuel : Nat}

def entryRow (v : Volume) (e : Entry) : Row := listRow (v.entryInfo e) ((v.stat e.inode).getD unread)

theorem listRows_stored (h : ∀ i n, v.node i = some n → Answers disk w rd v fuel i) {d : UInt32}
    {entries : List Entry} (hentries : v.entries d = some entries) :
    listRows (disk.device w) rd fuel (entries.map v.entryInfo) = pure (entries.map (entryRow v)) := by
  have hrows : ∀ info ∈ entries.map v.entryInfo,
      (do
        let st ← statInode (disk.device w) rd fuel info.inode
        return listRow info (st.getD unread) : ExceptT Fault Id Row) =
      pure (listRow info ((v.stat info.inode).getD unread)) := by
    intro info hinfo
    obtain ⟨e, he, rfl⟩ := List.mem_map.mp hinfo
    obtain ⟨child, hchild, _⟩ := Volume.entry_node hentries he
    rw [show (v.entryInfo e).inode = e.inode from rfl, (h e.inode child hchild).stat, pure_bind]
  rw [listRows, mapM_eq_pure hrows, List.map_map]
  rfl

theorem listDirectoryPath_stored (hmounted : rd.mounted = true)
    (h : ∀ i n, v.node i = some n → Answers disk w rd v fuel i) (path : Name) :
    listDirectoryPath (disk.device w) rd fuel path = pure ((v.lookup path).bind v.list) := by
  rw [listDirectoryPath, lookupPath_stored hmounted h, pure_bind]
  cases hlookup : v.lookup path with
  | none => rfl
  | some i =>
      obtain ⟨n, hn⟩ := lookup_node hlookup
      exact (h i n hn).list

def childRow (k : NodeInfo) : Row :=
  ⟨k.inodeNum, entryType k.isDirectory k.isSymlink, listedSize k.isDirectory k.fileSize, k.name, none⟩

theorem kids_rows {info : NodeInfo} (hdir : info.isDirectory = true) {entries : List Entry}
    (hentries : v.entries info.inodeNum = some entries) :
    (kids v.reader info).map childRow =
      (entries.map (entryRow v)).map fun r => { r with target := none } := by
  have hlist : v.reader.listDirectory info.inodeNum = some (entries.map v.entryInfo) :=
    congrArg (Option.map _) hentries
  have hchildren : kids v.reader info = entries.map fun e =>
      childInfo info (v.entryInfo e) ((v.stat e.inode).getD unread) := by
    rw [kids_of_list hdir hlist, entryInfos, List.filterMap_map, ← List.filterMap_eq_map]
    refine List.filterMap_congr fun e he => ?_
    obtain ⟨child, hchild, _⟩ := Volume.entry_node hentries he
    have hstat : v.stat e.inode = some ((v.stat e.inode).getD unread) := by
      rw [Volume.stat, hchild]
      rfl
    exact congrArg (Option.map _) hstat
  rw [hchildren, List.map_map, List.map_map]
  refine List.map_congr_left fun e he => ?_
  obtain ⟨child, hchild, _⟩ := Volume.entry_node hentries he
  simp [childRow, childInfo, entryRow, listRow, Volume.entryInfo, Volume.stat, hchild]

end Volumes

section Sessions

variable {ι : Type} (g : ι → FsReader Id)

def sessionEvent (q : Request ι) : Option Event :=
  match q.callback with
  | .startDirEnum filePathName id => some (.start (captured (g q.mount) q.self filePathName) id)
  | .getDirEnum id restart searchExpression buffer =>
      some (.get q.self id restart searchExpression buffer)
  | .endDirEnum id => some (.finish id)
  | .getPlaceholderInfo _ | .getFileData .. | .notification _ | .cancelCommand => none

def events (trace : List (Request ι × Answer)) : List Event :=
  trace.filterMap fun p => sessionEvent g p.1

def handed (id : Guid) : Request ι × Answer → List NodeInfo
  | (⟨_, _, .getDirEnum id' ..⟩, .entries _ added) => if id' = id then added else []
  | _ => []

def Ends (id : Guid) (p : Request ι × Answer) : Prop :=
  ∃ i self restart searchExpression buffer added,
    p = (⟨i, self, .getDirEnum id restart searchExpression buffer⟩, .entries errorNoMoreFiles added)

variable {g} {mounts : ι → Mount Id} {fuel : Nat} {fileNameMatch : Option (WString → WString → Bool)}
  {q : Request ι} {answer : Answer} {sessions sessions' : Sessions} {id : Guid}

theorem serve_event {e : Event} (he : sessionEvent g q = some e)
    (h : serve mounts fuel fileNameMatch g q sessions = pure (answer, sessions')) (id : Guid) :
    sessions' = (EnumSessions.step fileNameMatch sessions e).2 ∧
      handed id (q, answer) =
        (if (EnumSessions.step fileNameMatch sessions e).1.id = id then
          (EnumSessions.step fileNameMatch sessions e).1.added else []) ∧
      (Ends id (q, answer) → (EnumSessions.step fileNameMatch sessions e).1.id = id ∧
        (EnumSessions.step fileNameMatch sessions e).1.result = errorNoMoreFiles) := by
  obtain ⟨i, self, callback⟩ := q
  cases callback with
  | startDirEnum filePathName id' =>
      cases he
      cases pure_injective h
      exact ⟨rfl, (ite_self _).symm, fun ⟨_, _, _, _, _, _, hp⟩ => by cases hp⟩
  | getDirEnum id' restart searchExpression buffer =>
      cases he
      cases pure_injective h
      refine ⟨rfl, rfl, fun ⟨_, _, _, _, _, _, hp⟩ => ?_⟩
      injection hp with hrequest hanswer
      injection hrequest with _ _ hcallback
      injection hcallback with hid _ _ _
      injection hanswer with hr _
      exact ⟨hid, hr⟩
  | endDirEnum id' =>
      cases he
      cases pure_injective h
      exact ⟨rfl, (ite_self _).symm, fun ⟨_, _, _, _, _, _, hp⟩ => by cases hp⟩
  | getPlaceholderInfo _ => cases he
  | getFileData _ _ _ _ => cases he
  | notification _ => cases he
  | cancelCommand => cases he

theorem serve_no_event (he : sessionEvent g q = none)
    (h : serve mounts fuel fileNameMatch g q sessions = pure (answer, sessions')) (id : Guid) :
    sessions' = sessions ∧ handed id (q, answer) = [] ∧ ¬Ends id (q, answer) := by
  obtain ⟨i, self, callback⟩ := q
  cases callback with
  | startDirEnum _ _ => cases he
  | getDirEnum _ _ _ _ => cases he
  | endDirEnum _ => cases he
  | getPlaceholderInfo _ =>
      cases pure_injective h
      exact ⟨rfl, rfl, fun ⟨_, _, _, _, _, _, hp⟩ => by cases hp⟩
  | getFileData _ _ _ _ =>
      obtain ⟨_, _, hend⟩ := bind_eq_pure.mp h
      cases pure_injective hend
      exact ⟨rfl, rfl, fun ⟨_, _, _, _, _, _, hp⟩ => by cases hp⟩
  | notification _ =>
      cases pure_injective h
      exact ⟨rfl, rfl, fun ⟨_, _, _, _, _, _, hp⟩ => by cases hp⟩
  | cancelCommand =>
      cases pure_injective h
      exact ⟨rfl, rfl, fun ⟨_, _, _, _, _, _, hp⟩ => by cases hp⟩

/-- The session map goes its way through the requests as through their events, and what
the calls for a session are answered with is what they deliver. -/
theorem served_events {trace : List (Request ι × Answer)}
    (h : Served (serve mounts fuel fileNameMatch g) sessions trace sessions') (id : Guid) :
    sessions' = after fileNameMatch sessions (events g trace) ∧
      trace.flatMap (handed id) =
        delivered id (EnumSessions.run fileNameMatch sessions (events g trace)) ∧
      ((∃ p ∈ trace, Ends id p) → ∃ o ∈ EnumSessions.run fileNameMatch sessions (events g trace),
        o.id = id ∧ o.result = errorNoMoreFiles) := by
  induction h with
  | nil s => exact ⟨rfl, rfl, fun ⟨_, hp, _⟩ => by cases hp⟩
  | @cons s s' s'' q answer trace first _ ih =>
      obtain ⟨hafter, hdelivered, hends⟩ := ih
      rw [List.flatMap_cons, hdelivered]
      cases he : sessionEvent g q with
      | none =>
          obtain ⟨rfl, hhanded, hnot⟩ := serve_no_event he first id
          have hevents : events g ((q, answer) :: trace) = events g trace :=
            List.filterMap_cons_none he
          rw [hevents, hhanded]
          refine ⟨hafter, rfl, fun ⟨p, hp, hpend⟩ => ?_⟩
          rcases List.mem_cons.mp hp with rfl | hp
          · exact absurd hpend hnot
          · exact hends ⟨p, hp, hpend⟩
      | some e =>
          obtain ⟨rfl, hhanded, hend⟩ := serve_event he first id
          have hevents : events g ((q, answer) :: trace) = e :: events g trace :=
            List.filterMap_cons_some he
          rw [hevents, hhanded, EnumSessions.run, delivered_cons]
          refine ⟨hafter, ?_, ?_⟩
          · split
            · rfl
            · rw [List.nil_append]
          · rintro ⟨p, hp, hpend⟩
            rcases List.mem_cons.mp hp with rfl | hp
            · exact ⟨_, List.mem_cons_self, hend hpend⟩
            · obtain ⟨o, ho, hlast⟩ := hends ⟨p, hp, hpend⟩
              exact ⟨o, List.mem_cons_of_mem _ ho, hlast⟩

theorem scan_handed {i : ι} {self : Bool} {path : Option WString} {children : List NodeInfo}
    (hcaptured : captured (g i) self path = .ok children) {searchExpression : Option WString}
    {earlier scan later : List (Request ι × Answer)}
    (h : Served (serve mounts fuel fileNameMatch g) sessions
      ((⟨i, self, .startDirEnum path id⟩, .status sOk) :: (earlier ++ (scan ++ later))) sessions')
    (hcalls : ∀ e ∈ events g earlier ++ events g scan, Calls id searchExpression e)
    (hscan : IsScan id searchExpression (events g earlier) (events g scan))
    (hapart : ∀ e ∈ events g scan, Apart id e) (hend : ∃ p ∈ scan, Ends id p) :
    scan.flatMap (handed id) =
      children.filter (matchesExpression fileNameMatch (scanExpression searchExpression)) := by
  cases h with
  | @cons _ s _ _ _ _ first hserved =>
      obtain ⟨s₁, hearlier, hserved⟩ := hserved.append_inv
      obtain ⟨s₂, hscanned, _⟩ := hserved.append_inv
      have hopened : s = (EnumSessions.step fileNameMatch sessions (.start (.ok children) id)).2 := by
        have hsessions := congrArg Prod.snd (pure_injective first)
        rw [hcaptured] at hsessions
        exact hsessions.symm
      obtain ⟨hafter, _, _⟩ := served_events hearlier id
      obtain ⟨_, hhanded, hends⟩ := served_events hscanned id
      rw [hafter, hopened] at hhanded hends
      obtain ⟨k, _, hdelivered, hlast⟩ := scan_delivers
        (start_opens fileNameMatch sessions id children searchExpression) hcalls hscan
      have hk : k = children.length := by
        have := hlast hapart (hends hend)
        omega
      rw [hhanded, hdelivered, hk, List.drop_zero, List.take_length]

theorem start_captured {v : ι → Volume} {i : ι} {path : Option WString} {d : UInt32}
    (hpath : followPath (v i) path = some d)
    (h : serve mounts fuel fileNameMatch (fun i => (v i).reader) ⟨i, true, .startDirEnum path id⟩
      sessions = pure (.status sOk, sessions')) :
    ∃ node entries, captured (v i).reader true path = .ok (kids (v i).reader node) ∧
      node.isDirectory = true ∧ node.inodeNum = d ∧ (v i).entries d = some entries := by
  obtain ⟨node, hresolve, rfl, hfaithful⟩ := resolve_follow hpath
  have hcaptured : captured (v i).reader true path =
      if node.isDirectory then .ok (kids (v i).reader node) else .error errorFileNotFound := by
    rw [captured, hresolve]
    rfl
  have hentries := entries_of_directory hfaithful
  cases hdir : node.isDirectory with
  | false =>
      have hans := congrArg Prod.fst (pure_injective h)
      rw [hcaptured, hdir, if_neg Bool.false_ne_true] at hans
      have hstatus : errorFileNotFound = sOk := Answer.status.inj hans
      exact absurd hstatus (by decide)
  | true =>
      rw [hdir] at hentries
      obtain ⟨entries, hsome⟩ := Option.isSome_iff_exists.mp hentries
      rw [hdir, if_pos rfl] at hcaptured
      exact ⟨node, entries, hcaptured, hdir, rfl, hsome⟩

end Sessions

def readers {ι : Type} (projections : ι → Projection) (i : ι) : FsReader Id :=
  (projections i).volume.reader

structure OpensAs (inspect : UInt32 → Option DiskInfo) (createFile : Bool → Bool)
    (diskIdx partIdx : UInt32) (p : Projection) : Prop where
  found : ∃ info part, inspect diskIdx = some info ∧
    (info.partitions.find? fun part => part.partitionNumber == partIdx) = some part ∧
    part.isDataPartition = true ∧
    openReadOnly createFile part.startingOffset part.totalLength = some p.window
  mounts : mount (p.disk.device p.window) p.window.isOpen initial = pure (true, p.rd)

theorem cmdLs_stored {inspect : UInt32 → Option DiskInfo} {createFile : Bool → Bool}
    {diskIdx partIdx : UInt32} {p : Projection} (h : OpensAs inspect createFile diskIdx partIdx p)
    {fuel : Nat} (henough : Enough p fuel) {path : Name} {d : UInt32}
    (hlookup : p.volume.lookup (queryPath path) = some d) {entries : List Entry}
    (hentries : p.volume.entries d = some entries) :
    cmdLs inspect createFile p.disk.device fuel diskIdx partIdx path =
      pure (.listed (queryPath path) diskIdx partIdx (entries.map (entryRow p.volume))) := by
  obtain ⟨info, part, hdisk, hpart, hdata, hopen⟩ := h.found
  have hrefuses : ¬cmdLsRefuses part = true := by simp [cmdLsRefuses, hdata]
  have hlist : p.volume.list d = some (entries.map p.volume.entryInfo) :=
    congrArg (Option.map _) hentries
  rw [cmdLs, hdisk]
  dsimp only
  rw [hpart]
  dsimp only
  rw [if_neg hrefuses, hopen]
  dsimp only
  rw [h.mounts, pure_bind]
  dsimp only
  rw [if_neg (by simp), listDirectoryPath_stored p.stored.mounted henough, hlookup, Option.bind_some,
    hlist, pure_bind]
  dsimp only
  rw [listRows_stored henough hentries, pure_bind]

section Example

def plainScan : List (Turn Unit) :=
  [.enter 0 ⟨(), true, .startDirEnum none .zero⟩, .leave 0,
    .enter 0 ⟨(), true, .getDirEnum .zero false none oneEntry⟩,
    .enter 1 ⟨(), true, .getPlaceholderInfo (some [0x66])⟩, .leave 0, .leave 1,
    .enter 0 ⟨(), true, .getDirEnum .zero false none oneEntry⟩, .leave 0,
    .enter 0 ⟨(), true, .getDirEnum .zero false none oneEntry⟩, .leave 0]

def plainCall (buffer : EntryBuffer) : Callbacks.Request Unit :=
  ⟨(), true, .getDirEnum .zero false none buffer⟩

def plainTrace : List (Callbacks.Request Unit × Answer) :=
  [(plainCall oneEntry, .entries sOk [plainEntry [0x64] 11 1024 true]),
    (⟨(), true, .getPlaceholderInfo (some [0x66])⟩,
      .placeholder (.ok (some [0x66], basicInfo (plainEntry [0x66] 12 3 false)))),
    (plainCall oneEntry, .entries sOk [plainEntry [0x66] 12 3 false]),
    (plainCall oneEntry, .entries errorNoMoreFiles [])]

theorem plainScan_run : ∃ bound, ∀ fuel ≥ bound,
    run (fun _ : Unit => plainProjection.mount) fuel none (start Unit) plainScan =
      pure (.status sOk :: plainTrace.map Prod.snd) := by
  obtain ⟨bound, hbound⟩ := exists_enough plainProjection
  refine ⟨bound, fun fuel hfuel => ?_⟩
  rw [run_served plainScan (fun _ _ => serves_projection _ (hbound fuel hfuel))
    (fun _ => plainProjection.projectable) (fun _ => Inv.empty) underWay_start]
  rfl

def plainPartition : PartitionInfo := layoutPartition (fun _ => []) 0 ⟨.mbr 0x83 false, 0, 16384, 1⟩

def plainInspect : UInt32 → Option DiskInfo := fun _ => some ⟨0, 16384, 512, false, [plainPartition]⟩

theorem plain_opens : OpensAs plainInspect (fun _ => true) 0 1 plainProjection where
  found := ⟨_, plainPartition, rfl, rfl, rfl, rfl⟩
  mounts := by
    dsimp only [plainProjection]
    exact plain_mounts

end Example

end Linux2Win.DirectoryViews
