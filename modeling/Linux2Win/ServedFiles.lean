import Linux2Win.OpenedEntries
import Linux2Win.Patches
import Linux2Win.StoredVolumes

namespace Linux2Win.ServedFiles

open Bytes Devices Reader FileData Directory Programs Vfs NodeTree NodeWalk TreeCalls Resolvers DirEnum
open FileServing Callbacks Transducers Provider Volumes StoredVolumes Patches

section Walks

variable {v : Volume}

theorem kids_follow {info : NodeInfo} {entries : List Entry} (hdir : info.isDirectory = true)
    (hentries : v.entries info.inodeNum = some entries) (part : Name) :
    ((kids v.reader info).find? fun k => stricmp k.name part).map NodeInfo.inodeNum =
      (entries.find? fun e => stricmp e.name part).map Entry.inode := by
  have hlist : v.reader.listDirectory info.inodeNum = some (entries.map v.entryInfo) :=
    congrArg (Option.map _) hentries
  rw [kids_of_list hdir hlist, find_entryInfos]
  · rw [List.find?_map, Option.map_map]
    rfl
  · intro e he
    obtain ⟨e', he', rfl⟩ := List.mem_map.mp he
    obtain ⟨child, hchild, _⟩ := Volume.entry_node hentries he'
    exact ⟨_, congrArg (Option.map _) hchild⟩

/-- The node is a directory exactly when the volume has one under its inode number. -/
def Faithful (v : Volume) (info : NodeInfo) : Prop :=
  ∃ n, v.node info.inodeNum = some n ∧ info.isDirectory = n.content.isDirectory ∧
    info.fileSize = UInt64.ofNat n.content.size

theorem faithful_root {root : NodeInfo} (h : rootNode v.reader = some root) : Faithful v root := by
  obtain ⟨_, st, hst, rfl⟩ := rootNode_eq_some_iff.mp h
  obtain ⟨n, hn, hdir⟩ := v.root
  have hstat : v.stat 2 = some st := hst
  rw [Volume.stat, hn] at hstat
  cases hstat
  exact ⟨n, hn, hdir.symm, rfl⟩

theorem faithful_kid {info k : NodeInfo} (h : k ∈ kids v.reader info) : Faithful v k := by
  obtain ⟨_, entries, e, st, hlist, he, hst, rfl⟩ := mem_kids h
  obtain ⟨n, hn, rfl⟩ := Option.map_eq_some_iff.mp (hst : v.stat e.inode = some st)
  exact ⟨n, hn, rfl, rfl⟩

theorem entries_of_directory {info : NodeInfo} (h : Faithful v info) :
    (v.entries info.inodeNum).isSome = info.isDirectory := by
  obtain ⟨n, hn, hdir, _⟩ := h
  rw [Volume.entries, hn, hdir, Option.bind_some]
  cases n.content <;> rfl

theorem walkInfo_follow (parts : List Name) {info : NodeInfo} (h : Faithful v info) :
    (walkInfo v.reader parts info).map NodeInfo.inodeNum = v.follow stricmp parts info.inodeNum ∧
      ∀ w, walkInfo v.reader parts info = some w → Faithful v w := by
  induction parts generalizing info with
  | nil => exact ⟨rfl, fun w hw => Option.some.inj hw ▸ h⟩
  | cons part parts ih =>
      have hentries := entries_of_directory h
      rw [walkInfo, Volume.follow]
      cases hdir : info.isDirectory with
      | false =>
          rw [hdir, Option.isSome_eq_false_iff, Option.isNone_iff_eq_none] at hentries
          rw [if_neg Bool.false_ne_true, hentries]
          exact ⟨rfl, fun w hw => (Option.some_ne_none w hw.symm).elim⟩
      | true =>
          rw [hdir] at hentries
          obtain ⟨entries, hsome⟩ := Option.isSome_iff_exists.mp hentries
          have hfind := kids_follow hdir hsome part
          rw [if_pos rfl, hsome, Option.bind_some]
          cases hk : (kids v.reader info).find? fun k => stricmp k.name part with
          | none =>
              rw [hk] at hfind
              rw [Option.map_eq_none_iff.mp hfind.symm]
              exact ⟨rfl, fun w hw => (Option.some_ne_none w hw.symm).elim⟩
          | some k =>
              rw [hk] at hfind
              obtain ⟨e, he, hinode⟩ := Option.map_eq_some_iff.mp hfind.symm
              rw [he, Option.bind_some, hinode]
              exact ih (faithful_kid (List.mem_of_find?_eq_some hk))

def followPath (v : Volume) (path : Option WString) : Option UInt32 := v.follow stricmp (partsOf path) 2

theorem resolve_follow {path : Option WString} {i : UInt32} (h : followPath v path = some i) :
    ∃ info, resolve v.reader true path = .ok info ∧ info.inodeNum = i ∧ Faithful v info := by
  obtain ⟨n, hn, _⟩ := v.root
  have hroot : rootNode v.reader = some (rootInfo _) :=
    rootNode_eq_some_iff.mpr ⟨rfl, _, congrArg (Option.map _) hn, rfl⟩
  obtain ⟨hwalk, hfaithful⟩ := walkInfo_follow (partsOf path) (faithful_root hroot)
  rw [followPath] at h
  obtain ⟨info, hinfo, hinode⟩ := Option.map_eq_some_iff.mp (hwalk.trans h)
  refine ⟨info, ?_, hinode, hfaithful info hinfo⟩
  rw [resolve, locate, hroot, Option.bind_some, hinfo]
  rfl

end Walks

section Reads

variable {disk : Disk} {w : BlockDevice} {rd : Ext4Reader} {v : Volume} {fuel : Nat} {i : UInt32}
  {path : Option WString}

theorem readFile_answers (h : Answers disk w rd v fuel i) {info : NodeInfo} (hinode : info.inodeNum = i)
    {byteOffset : UInt64} {length : UInt32} (buffer : List Byte) {data : List Byte}
    (hpos : 0 < length.toNat) (hno : byteOffset.toNat + length.toNat < 2 ^ 64)
    (hfuel : length.toNat < fuel) (hdata : v.read i byteOffset.toNat length.toNat = some data) :
    readFile (disk.device w) rd fuel (.ok info) byteOffset length (some buffer) = pure (.ok data) := by
  have hlen := UInt32.toNat_toUInt64 length
  have hlt := length.toNat_lt
  have hdata' := hdata
  rw [← hlen] at hdata hpos hno hfuel
  have hread := h.read byteOffset length.toUInt64 buffer data hpos (by omega) hno hfuel hdata
  have hcount : data.length ≤ length.toNat := by
    obtain ⟨n, _, hn⟩ := Option.bind_eq_some_iff.mp hdata'
    cases hc : n.content with
    | regular bytes =>
        rw [hc] at hn
        cases hn
        exact List.length_take_le _ _
    | directory _ _ => rw [hc] at hn; cases hn
    | symlink _ => rw [hc] at hn; cases hn
    | special _ => rw [hc] at hn; cases hn
  simp only [readFile, hinode, hread, pure_bind]
  have hbytes : (UInt64.ofNat data.length).toUInt32.toNat = data.length := by
    rw [UInt64.toNat_toUInt32, UInt64.toNat_ofNat', Nat.mod_eq_of_lt (by omega), Nat.mod_eq_of_lt (by omega)]
  rw [hbytes, overlay, List.take_left]
  rfl

end Reads

section Runs

variable {ι : Type}

/-- A mounted volume: where it is stored, its reader, and what it holds. -/
structure Projection where
  disk : Disk
  window : BlockDevice
  rd : Ext4Reader
  volume : Volume
  stored : Stored (disk.device window) rd volume
  projectable : Projectable volume.reader

def Projection.mount (p : Projection) : Mount Id := ⟨p.disk.device p.window, p.rd⟩

def Enough (p : Projection) (fuel : Nat) : Prop :=
  ∀ j n, p.volume.node j = some n → Answers p.disk p.window p.rd p.volume fuel j

theorem exists_enough (p : Projection) : ∃ bound, ∀ fuel ≥ bound, Enough p fuel :=
  answers_all p.stored

variable {projections : ι → Projection} {fuel : Nat}
  {fileNameMatch : Option (WString → WString → Bool)}

theorem serves_projection (p : Projection) (henough : Enough p fuel) :
    Serves (ext4 p.mount.dev p.mount.rd fuel) p.volume.reader :=
  serves_stored p.stored.mounted henough

/-- A run comes to finitely many mounts, so some fuel is enough for all of them. -/
theorem exists_enough_turns [DecidableEq ι] (projections : ι → Projection) (turns : List (Turn ι)) :
    ∃ bound, 2 ^ 32 ≤ bound ∧ ∀ fuel ≥ bound, ∀ i ∈ entered turns, Enough (projections i) fuel := by
  choose bound hbound using fun i => exists_enough (projections i)
  refine ⟨max (2 ^ 32) ((entered turns).toFinset.sup bound), le_max_left _ _, fun fuel hfuel i hi => ?_⟩
  have hle := Finset.le_sup (f := bound) (List.mem_toFinset.mpr hi)
  exact hbound i fuel (hle.trans ((le_max_right _ _).trans hfuel))

theorem serve_read {i : ι} (henough : Enough (projections i) fuel) {path : Option WString}
    {inodeNum : UInt32}
    (hpath : followPath (projections i).volume path = some inodeNum) {byteOffset : UInt64}
    {length : UInt32} (buffer : List Byte) {data : List Byte} (hpos : 0 < length.toNat)
    (hno : byteOffset.toNat + length.toNat < 2 ^ 64) (hfuel : length.toNat < fuel)
    (hdata : (projections i).volume.read inodeNum byteOffset.toNat length.toNat = some data)
    (sessions : Sessions) :
    serve (fun i => (projections i).mount) fuel fileNameMatch (fun i => (projections i).volume.reader)
        ⟨i, true, .getFileData path byteOffset length (some buffer)⟩ sessions =
      pure (.fileData (.ok data), sessions) := by
  obtain ⟨info, hresolve, hinode, n, hn, hdir, _⟩ := resolve_follow hpath
  rw [hinode] at hn
  have hfile : file (projections i).volume.reader true path = .ok info := by
    have hregular : n.content.isDirectory = false := by
      rw [Volume.read, hn, Option.bind_some] at hdata
      cases hc : n.content with
      | directory _ _ => rw [hc] at hdata; cases hdata
      | regular _ => rfl
      | symlink _ => rfl
      | special _ => rfl
    rw [file, hresolve]
    simp only [Except.bind, hdir, hregular]
    rfl
  have hread := readFile_answers (henough inodeNum n hn) hinode buffer hpos hno hfuel hdata
  simp only [serve, pending, hfile, leave]
  rw [Projection.mount, hread, pure_bind]

variable [DecidableEq ι] {turns : List (Turn ι)} {answers : List Answer}

theorem run_projections (henough : ∀ i ∈ entered turns, Enough (projections i) fuel)
    (hrun : run (fun i => (projections i).mount) fuel fileNameMatch (start ι) turns = pure answers) :
    serveAll (serve (fun i => (projections i).mount) fuel fileNameMatch
      fun i => (projections i).volume.reader) (completed (fun _ => none) turns) ∅ = pure answers := by
  rwa [run_served turns (fun i hi => serves_projection _ (henough i hi))
    (fun i => (projections i).projectable) (fun _ => Inv.empty) underWay_start] at hrun

theorem served_bytes (henough : ∀ i ∈ entered turns, Enough (projections i) fuel)
    (hrun : run (fun i => (projections i).mount) fuel fileNameMatch (start ι) turns = pure answers)
    {i : ι} {path : Option WString} {inodeNum : UInt32}
    (hpath : followPath (projections i).volume path = some inodeNum) {byteOffset : UInt64}
    {length : UInt32} {buffer data : List Byte} (hpos : 0 < length.toNat)
    (hno : byteOffset.toNat + length.toNat < 2 ^ 64) (hfuel : 2 ^ 32 ≤ fuel)
    (hdata : (projections i).volume.read inodeNum byteOffset.toNat length.toNat = some data) {c : Nat}
    (hc : (completed (fun _ => none) turns)[c]? =
      some ⟨i, true, .getFileData path byteOffset length (some buffer)⟩) :
    answers[c]? = some (.fileData (.ok data)) := by
  have hlt := length.toNat_lt
  have hmem := mem_entered (List.mem_of_getElem? hc)
  obtain ⟨sessions, answer, _, _, hserve, hans⟩ := answer_at (P := fun _ => True)
    (run_projections henough hrun) trivial hc fun _ _ _ _ _ _ _ _ _ => trivial
  rw [serve_read (henough i hmem) hpath buffer hpos hno (by omega) hdata] at hserve
  cases pure_injective hserve
  exact hans

end Runs

section Hydration

variable {ι : Type} [DecidableEq ι]

def writeOf (i : ι) (path : Option WString) : Request ι × Answer → Option (Nat × List Byte)
  | (⟨j, _, .getFileData path' byteOffset _ _⟩, .fileData (.ok data)) =>
      if j = i ∧ path' = path then some (byteOffset.toNat, data) else none
  | _ => none

def writesOf (i : ι) (path : Option WString) (requests : List (Request ι)) (answers : List Answer) :
    List (Nat × List Byte) :=
  (requests.zip answers).filterMap (writeOf i path)

theorem writeOf_eq_some {i : ι} {path : Option WString} {p : Request ι × Answer} {write : Nat × List Byte}
    (h : writeOf i path p = some write) : ∃ self byteOffset length buffer data,
      p = (⟨i, self, .getFileData path byteOffset length buffer⟩, .fileData (.ok data)) ∧
        write = (byteOffset.toNat, data) := by
  unfold writeOf at h
  split at h
  · next j self path' byteOffset length buffer data =>
      split at h
      · next hsame =>
          obtain ⟨rfl, rfl⟩ := hsame
          exact ⟨self, byteOffset, length, buffer, data, rfl, (Option.some.inj h).symm⟩
      · cases h
  · cases h

omit [DecidableEq ι] in
theorem readFile_ok {dev : Device Id} {rd : Ext4Reader} {fuel : Nat} {file : Except HResult NodeInfo}
    {byteOffset : UInt64} {length : UInt32} {buffer : Option (List Byte)} {data : List Byte}
    (h : readFile dev rd fuel file byteOffset length buffer = pure (.ok data)) :
    (∃ info, file = .ok info) ∧ (∃ b, buffer = some b) ∧ 0 < length.toNat := by
  simp only [readFile] at h
  cases file with
  | error hr => cases pure_injective h
  | ok info =>
      cases buffer with
      | none => cases pure_injective h
      | some b =>
          refine ⟨⟨info, rfl⟩, ⟨b, rfl⟩, Nat.pos_of_ne_zero fun hzero => ?_⟩
          obtain rfl : length = 0 := UInt32.toNat_inj.mp hzero
          obtain ⟨r, hread, hend⟩ := bind_eq_pure.mp h
          have hnone : readFileData dev rd fuel info.inodeNum byteOffset (some b) (0 : UInt32).toUInt64 =
              pure ⟨false, b, 0⟩ := by
            rw [readFileData, if_pos (by simp)]
          cases pure_injective (hnone.symm.trans hread)
          cases pure_injective hend

variable {projections : ι → Projection} {fuel : Nat}
  {fileNameMatch : Option (WString → WString → Bool)}

omit [DecidableEq ι] in
theorem written_data {i : ι} (henough : Enough (projections i) fuel) (hfuel : 2 ^ 32 ≤ fuel)
    {self : Bool} {path : Option WString} {inodeNum : UInt32} {n : Volumes.Node} {bytes : List Byte}
    (hpath : followPath (projections i).volume path = some inodeNum)
    (hn : (projections i).volume.node inodeNum = some n) (hc : n.content = .regular bytes)
    {byteOffset : UInt64} {length : UInt32} {buffer : Option (List Byte)} {data : List Byte}
    (hno : byteOffset.toNat + length.toNat < 2 ^ 64) {sessions sessions' : Sessions}
    (h : serve (fun i => (projections i).mount) fuel fileNameMatch (fun i => (projections i).volume.reader)
      ⟨i, self, .getFileData path byteOffset length buffer⟩ sessions =
        pure (.fileData (.ok data), sessions')) :
    data = (bytes.drop byteOffset.toNat).take length.toNat := by
  obtain ⟨handed, hread, hend⟩ := bind_eq_pure.mp h
  cases pure_injective hend
  obtain ⟨⟨info, hinfo⟩, ⟨b, rfl⟩, hpos⟩ := readFile_ok hread
  cases self with
  | false => rw [file, resolve] at hinfo; cases hinfo
  | true =>
      have hlt := length.toNat_lt
      have hdata : (projections i).volume.read inodeNum byteOffset.toNat length.toNat =
          some ((bytes.drop byteOffset.toNat).take length.toNat) := by
        rw [Volume.read, hn, Option.bind_some, hc]
      rw [serve_read henough hpath b hpos hno (by omega) hdata] at h
      cases pure_injective h
      rfl

end Hydration

section Example

theorem projectable_of_entries {v : Volume} (h : ∀ d entries, v.entries d = some entries →
    (∀ e ∈ entries, ∀ c ∈ e.name, isSeparator c = false) ∧
      entries.Pairwise fun e e' => stricmp e.name e'.name = false) : Projectable v.reader := by
  have hlist : ∀ d infos, v.reader.listDirectory d = some infos →
      ∃ entries, v.entries d = some entries ∧ infos = entries.map v.entryInfo := fun d infos hlist =>
    (Option.map_eq_some_iff.mp (hlist : (v.entries d).map _ = some infos)).imp fun _ h => ⟨h.1, h.2.symm⟩
  constructor
  · intro d _ infos hinfos e he
    obtain ⟨entries, hentries, rfl⟩ := hlist d infos hinfos
    obtain ⟨e', he', rfl⟩ := List.mem_map.mp he
    exact (h d entries hentries).1 e' he'
  · intro d _ infos hinfos
    obtain ⟨entries, hentries, rfl⟩ := hlist d infos hinfos
    exact List.pairwise_map.mpr (h d entries hentries).2

def plainProjection : Projection where
  disk := plainDisk
  window := plainWindow
  rd := plainRd
  volume := plainVolume
  stored := plain_stored
  projectable := projectable_of_entries fun d entries hentries => by
    obtain ⟨n, size, hn, hc⟩ := Volume.entries_eq_some.mp hentries
    constructor
    · intro e he
      rcases plainNode_entries hn hc he with rfl | rfl | rfl <;>
        exact List.forall_mem_singleton.mpr (by decide)
    · rcases plainNode_cases hn with ⟨_, rfl⟩ | ⟨_, rfl⟩ | ⟨_, rfl⟩ | ⟨_, rfl⟩
      · cases hc
        exact List.pairwise_pair.mpr (by decide)
      · cases hc
        exact List.pairwise_singleton _ _
      · cases hc
      · cases hc

def plainReads : List (Turn Unit) :=
  [.enter 0 ⟨(), true, .getFileData (some [0x46]) 1 3 (some [])⟩,
    .enter 1 ⟨(), true, .getFileData (some [0x46]) 0 2 (some [])⟩, .leave 0, .leave 1]

def plainRequests : List (Callbacks.Request Unit) :=
  [⟨(), true, .getFileData (some [0x46]) 1 3 (some [])⟩,
    ⟨(), true, .getFileData (some [0x46]) 0 2 (some [])⟩]

theorem plainReads_completed : completed (fun _ => none) plainReads = plainRequests := rfl

def plainPieces : List Answer := [.fileData (.ok [0x62, 0x63]), .fileData (.ok [0x61, 0x62])]

theorem plainReads_run : ∃ bound, ∀ fuel ≥ bound,
    run (fun _ : Unit => plainProjection.mount) fuel none (start Unit) plainReads = pure plainPieces := by
  obtain ⟨bound, h32, hbound⟩ := exists_enough_turns (fun _ : Unit => plainProjection) plainReads
  refine ⟨bound, fun fuel hfuel => ?_⟩
  have henough : Enough plainProjection fuel := hbound fuel hfuel () List.mem_cons_self
  have hserve : ∀ (byteOffset : UInt64) (length : UInt32) (data : List Byte), 0 < length.toNat →
      byteOffset.toNat + length.toNat < 2 ^ 64 →
      plainVolume.read 12 byteOffset.toNat length.toNat = some data →
      serve (fun _ : Unit => plainProjection.mount) fuel none (fun _ => plainVolume.reader)
          ⟨(), true, .getFileData (some [0x46]) byteOffset length (some [])⟩ ∅ =
        pure (.fileData (.ok data), ∅) := fun byteOffset length data hpos hno hdata =>
    serve_read henough rfl [] hpos hno (lt_of_lt_of_le length.toNat_lt (h32.trans hfuel)) hdata ∅
  have hfirst := hserve 1 3 [0x62, 0x63] (by decide) (by decide) rfl
  have hsecond := hserve 0 2 [0x61, 0x62] (by decide) (by decide) rfl
  rw [run_served plainReads (fun _ _ => serves_projection _ henough)
    (fun _ => plainProjection.projectable) (fun _ => Inv.empty) underWay_start, plainReads_completed,
    plainRequests, serveAll]
  exact bind_eq_pure.mpr ⟨_, hfirst, bind_eq_pure.mpr ⟨_, bind_eq_pure.mpr ⟨_, hsecond, rfl⟩, rfl⟩⟩

end Example

end Linux2Win.ServedFiles
