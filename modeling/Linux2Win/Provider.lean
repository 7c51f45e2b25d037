import Linux2Win.Callbacks
import Linux2Win.NodeSoundness
import Linux2Win.StoredVolumes
import Linux2Win.Transducers

namespace Linux2Win.Provider

open Bytes Devices Reader Directory Guids Programs Vfs Caches NodeTree NodeWalk TreeCalls NodeCache
open PathNames Listings Resolvers NodeSoundness StoredVolumes DirEnum Callbacks
  Transducers

section Volume

variable (g : FsReader Id)

/-- In every directory the names are free of separators, and no two agree up to the
case of their letters. -/
structure Projectable : Prop where
  separatorFree : ∀ d, Linked g d → ∀ entries, g.listDirectory d = some entries →
    ∀ e ∈ entries, ∀ c ∈ e.name, isSeparator c = false
  distinct : ∀ d, Linked g d → ∀ entries, g.listDirectory d = some entries →
    entries.Pairwise fun e e' => stricmp e.name e'.name = false

/-- The node that names lead to from the root, with the case of letters disregarded. -/
def locate (parts : List Name) : Option NodeInfo := (rootNode g).bind (walkInfo g parts)

def partsOf (filePathName : Option WString) : List Name :=
  pathParts (narrowPath ((filePathName.map cStr).getD []))

variable {g} {info k : NodeInfo} {names : List Name}

theorem plain_entry (hp : Projectable g) (hl : Listed g) {d : UInt32} (hd : Linked g d)
    {entries : List DirEntryInfo} (hlist : g.listDirectory d = some entries) {e : DirEntryInfo}
    (he : e ∈ entries) : PlainName e.name :=
  ⟨(hl.names d hd entries hlist e he).1, hp.separatorFree d hd entries hlist e he⟩

theorem named_path (hp : Projectable g) (hl : Listed g) (h : Named g names info) :
    info.relativePath = joinNames names ∧ (∀ name ∈ names, PlainName name) ∧
      Linked g info.inodeNum := by
  induction h with
  | root h =>
      obtain ⟨hinode, hpath, _⟩ := rootNode_inode h
      exact ⟨hpath, by simp, hinode ▸ .root⟩
  | @kid names parent k _ hk ih =>
      obtain ⟨hpath, hplain, hlinked⟩ := ih
      obtain ⟨_, entries, e, st, hlist, he, _, rfl⟩ := mem_kids hk
      have hname := plain_entry hp hl hlinked hlist he
      refine ⟨childInfo_path hpath (fun name h => (hplain name h).1) e st, fun name h => ?_,
        .entry hlinked hlist he⟩
      rcases List.mem_append.mp h with h | h
      · exact hplain name h
      · rwa [List.mem_singleton.mp h]

theorem distinct_kids (hp : Projectable g) (hlinked : Linked g info.inodeNum) :
    (kids g info).Pairwise fun k k' => stricmp k.name k'.name = false := by
  rw [kids, listing]
  split
  · cases hlist : g.listDirectory info.inodeNum with
    | none => exact .nil
    | some entries =>
        refine List.Pairwise.filterMap _ ?_ (hp.distinct _ hlinked entries hlist)
        intro e e' hne k hk k' hk'
        obtain ⟨st, _, rfl⟩ := Option.map_eq_some_iff.mp hk
        obtain ⟨st', _, rfl⟩ := Option.map_eq_some_iff.mp hk'
        exact hne
  · exact .nil

theorem find_distinct {infos : List NodeInfo}
    (h : infos.Pairwise fun k k' => stricmp k.name k'.name = false) (hk : k ∈ infos) :
    infos.find? (fun x => stricmp x.name k.name) = some k := by
  induction infos with
  | nil => cases hk
  | cons x infos ih =>
      obtain ⟨hx, hrest⟩ := List.pairwise_cons.mp h
      rcases List.mem_cons.mp hk with rfl | hk
      · simp only [List.find?_cons, stricmp_refl]
      · simp only [List.find?_cons, hx k hk]
        exact ih hrest hk

theorem locate_kid (hp : Projectable g) (hlinked : Linked g info.inodeNum)
    (h : locate g names = some info) (hk : k ∈ kids g info) :
    locate g (names ++ [k.name]) = some k := by
  obtain ⟨root, hroot, hwalk⟩ := Option.bind_eq_some_iff.mp h
  rw [locate, hroot, Option.bind_some, walkInfo_append hwalk]
  exact walkInfo_cons_iff.mpr ⟨(mem_kids hk).1, k, find_distinct (distinct_kids hp hlinked) hk, rfl⟩

theorem locate_named (hp : Projectable g) (hl : Listed g) (h : Named g names info) :
    locate g names = some info := by
  induction h with
  | root h => rw [locate, h]; rfl
  | kid hnamed hk ih => exact locate_kid hp (named_path hp hl hnamed).2.2 ih hk

theorem named_locate {names : List Name} (h : locate g names = some info) :
    ∃ names', Named g names' info := by
  obtain ⟨root, hroot, hwalk⟩ := Option.bind_eq_some_iff.mp h
  obtain ⟨names', hnamed, _⟩ := walkInfo_named (.root hroot) hwalk
  exact ⟨names', hnamed⟩

end Volume

section Tree

variable {g : FsReader Id} {t : VfsTree}

/-- The cache and the nodes loaded so far change no answer of `find_node`. -/
theorem findNode_locates (hp : Projectable g) (hl : Listed g) (h : Inv g t) (path : Name) :
    ∃ r t', findNode g path t = pure (r, t') ∧ Inv g t' ∧
      r.map (infoAt t') = (locate g (pathParts path)).map some := by
  obtain ⟨r, t', hfind, hinv, _⟩ := findNode_inv h path
  refine ⟨r, t', hfind, hinv, ?_⟩
  by_cases hmiss : normalizePath path = [] ∨ t.nodeCache.lookup (normalizePath path) = none
  · exact (findNode_uncached h hmiss hfind).trans (by rw [uncached_parts]; rfl)
  · obtain ⟨hq, hhit⟩ := not_or.mp hmiss
    obtain ⟨id, hid⟩ := Option.ne_none_iff_exists'.mp hhit
    cases findNode_hit hq hid hfind
    obtain ⟨info, j, k, hreached, _, hk, hkey, hinfo⟩ := h.hit hq hid
    obtain ⟨names, hnamed⟩ := reached_named hreached
    have hkid : Named g (names ++ [k.name]) k := .kid hnamed (List.mem_of_getElem? hk)
    obtain ⟨hpath, hplain, _⟩ := named_path hp hl hkid
    have hparts : names ++ [k.name] = pathParts path := by
      rw [cacheKey, hpath, normalizePath_join hplain, normalizePath_eq] at hkey
      exact joinNames_injective (plain_of_names hplain)
        (plain_of_names (pathParts_plain path)) hkey
    rw [← hparts, locate_named hp hl hkid, Option.map_some, Option.map_some, hinfo]

theorem nodeAt_eq {r : Option NodeId} {info : Option NodeInfo}
    (h : r.map (infoAt t) = info.map some) : nodeAt r t = info := by
  rw [nodeAt, Option.map_bind]
  exact bind_of_map h

end Tree

section Spec

/-- The provider without trees: every path is followed on the volume itself. -/
def resolve (g : FsReader Id) (self : Bool) (filePathName : Option WString) : Except HResult NodeInfo :=
  if !self then .error errorInvalidParameter
  else
    match locate g (partsOf filePathName) with
    | none => .error errorFileNotFound
    | some info => .ok info

def captured (g : FsReader Id) (self : Bool) (filePathName : Option WString) :
    Except HResult (List NodeInfo) :=
  (resolve g self filePathName).bind fun info =>
    if info.isDirectory then .ok (kids g info) else .error errorFileNotFound

def file (g : FsReader Id) (self : Bool) (filePathName : Option WString) : Except HResult NodeInfo :=
  (resolve g self filePathName).bind fun info =>
    if info.isDirectory then .error errorFileNotFound else .ok info

def pending (g : FsReader Id) (self : Bool) : Callback → Pending
  | .startDirEnum filePathName id => .insert (captured g self filePathName) id
  | .getDirEnum id restart searchExpression buffer => .get self id restart searchExpression buffer
  | .endDirEnum id => .erase id
  | .getPlaceholderInfo filePathName =>
      .done (.placeholder ((resolve g self filePathName).map fun info => (filePathName, basicInfo info)))
  | .getFileData filePathName byteOffset length buffer =>
      .read (file g self filePathName) byteOffset length buffer
  | .notification n => .done (.status (notificationCallback n))
  | .cancelCommand => .done .nothing

end Spec

section Served

variable {fs : FsReader (ExceptT Fault Id)} {g : FsReader Id} {t : VfsTree} (h : Serves fs g)
  (hp : Projectable g) (hl : Listed g) (hinv : Inv g t)
include h hp hl hinv

theorem findNodeW_served (filePathName : Option WString) :
    ∃ r t', findNodeW fs ((filePathName.map cStr).getD []) t = pure (r, t') ∧ Inv g t' ∧
      nodeAt r t' = locate g (partsOf filePathName) := by
  obtain ⟨r, t', hfind, hinv', hr⟩ :=
    findNode_locates hp hl hinv (narrowPath ((filePathName.map cStr).getD []))
  refine ⟨r, t', ?_, hinv', nodeAt_eq hr⟩
  rw [findNodeW, findNode_served h hinv, hfind]
  rfl

theorem getPlaceholderInfo_served (self : Bool) (filePathName : Option WString) :
    ∃ t', getPlaceholderInfoCallback fs self filePathName t =
        pure ((resolve g self filePathName).map fun info => (filePathName, basicInfo info), t') ∧
      Inv g t' := by
  rw [getPlaceholderInfoCallback, resolve]
  cases self with
  | false => exact ⟨t, rfl, hinv⟩
  | true =>
      obtain ⟨r, t', hfind, hinv', hnode⟩ := findNodeW_served h hp hl hinv filePathName
      refine ⟨t', ?_, hinv'⟩
      simp only [Bool.not_true, Bool.false_eq_true, if_false, hfind, pure_bind, hnode]
      cases locate g (partsOf filePathName) <;> rfl

theorem findFile_served (self : Bool) (filePathName : Option WString) :
    ∃ t', findFile fs self filePathName t = pure (file g self filePathName, t') ∧ Inv g t' := by
  rw [findFile, file, resolve]
  cases self with
  | false => exact ⟨t, rfl, hinv⟩
  | true =>
      obtain ⟨r, t', hfind, hinv', hnode⟩ := findNodeW_served h hp hl hinv filePathName
      refine ⟨t', ?_, hinv'⟩
      simp only [Bool.not_true, Bool.false_eq_true, if_false, hfind, pure_bind, hnode]
      cases locate g (partsOf filePathName) <;> rfl

theorem captureChildren_served (self : Bool) (filePathName : Option WString) :
    ∃ t', captureChildren fs self filePathName t = pure (captured g self filePathName, t') ∧
      Inv g t' := by
  rw [captureChildren, captured, resolve]
  cases self with
  | false => exact ⟨t, rfl, hinv⟩
  | true =>
      obtain ⟨r, t', hfind, hinv', hnode⟩ := findNodeW_served h hp hl hinv filePathName
      simp only [Bool.not_true, Bool.false_eq_true, if_false, hfind, pure_bind, ← hnode]
      rw [nodeAt, Option.map_bind]
      cases r with
      | none => exact ⟨t', rfl, hinv'⟩
      | some id =>
          cases hn : t'.nodes[id]? with
          | none => exact ⟨t', by simp [hn, Except.bind], hinv'⟩
          | some node =>
              cases hdir : node.info.isDirectory with
              | false => exact ⟨t', by simp [hn, hdir, Except.bind], hinv'⟩
              | true =>
                  obtain ⟨t'', cs, hensure, hv⟩ := visit (g := g) hn
                  refine ⟨t'', ?_, hv.inv hinv' hn⟩
                  have hchildren : (t''.childNodes id).map Prod.snd = kids g node.info := by
                    rw [hv.childNodes hinv' hn]
                    have hlen := congrArg List.length (hv.infos hinv' hn)
                    rw [List.length_map, List.length_map] at hlen
                    exact List.map_snd_zip (Nat.le_of_eq hlen.symm)
                  simp [hn, hdir, Except.bind, ensureChildrenLoaded_served h hinv', hensure, hchildren]

end Served

section Runs

variable {ι : Type} (mounts : ι → Mount Id) (fuel : Nat)
  (fileNameMatch : Option (WString → WString → Bool)) (g : ι → FsReader Id)

def serve (request : Request ι) (sessions : Sessions) : ExceptT Fault Id (Answer × Sessions) :=
  leave (mounts request.mount).dev (mounts request.mount).rd fuel fileNameMatch
    (pending (g request.mount) request.self request.callback) sessions

variable {mounts fuel fileNameMatch g}
variable {i : ι} (hserves : Serves (ext4 (mounts i).dev (mounts i).rd fuel) (g i))
  (hp : Projectable (g i))

include hserves hp in
theorem enter_served {t : VfsTree} (hinv : Inv (g i) t) (self : Bool) (callback : Callback) :
    ∃ t', enter (mounts i).dev (mounts i).rd fuel self callback t =
        pure (pending (g i) self callback, t') ∧ Inv (g i) t' := by
  have hl := listed_of_serves hserves
  cases callback with
  | startDirEnum filePathName id =>
      obtain ⟨t', heq, hinv'⟩ := captureChildren_served hserves hp hl hinv self filePathName
      exact ⟨t', by rw [enter, heq, pure_bind]; rfl, hinv'⟩
  | getPlaceholderInfo filePathName =>
      obtain ⟨t', heq, hinv'⟩ := getPlaceholderInfo_served hserves hp hl hinv self filePathName
      exact ⟨t', by rw [enter, heq, pure_bind]; rfl, hinv'⟩
  | getFileData filePathName byteOffset length buffer =>
      obtain ⟨t', heq, hinv'⟩ := findFile_served hserves hp hl hinv self filePathName
      exact ⟨t', by rw [enter, heq, pure_bind]; rfl, hinv'⟩
  | getDirEnum id restart searchExpression buffer => exact ⟨t, rfl, hinv⟩
  | endDirEnum id => exact ⟨t, rfl, hinv⟩
  | notification n => exact ⟨t, rfl, hinv⟩
  | cancelCommand => exact ⟨t, rfl, hinv⟩

variable (g) in
def UnderWay (requests : Nat → Option (Request ι)) (s : Provider ι) : Prop :=
  ∀ thread, s.threads thread = (requests thread).map fun q =>
    (q.mount, pending (g q.mount) q.self q.callback)

theorem underWay_start : UnderWay g (fun _ => none) (start ι) := fun _ => rfl

variable {requests : Nat → Option (Request ι)} {s s' : Provider ι}

theorem UnderWay.update (h : UnderWay g requests s) {thread : Nat} {request : Option (Request ι)}
    (heq : s'.threads = Function.update s.threads thread (request.map fun q =>
      (q.mount, pending (g q.mount) q.self q.callback))) :
    UnderWay g (Function.update requests thread request) s' := by
  intro thread'
  rw [heq]
  by_cases ht : thread' = thread
  · subst ht
    rw [Function.update_self, Function.update_self]
  · rw [Function.update_of_ne ht, Function.update_of_ne ht]
    exact h thread'

def entered (turns : List (Turn ι)) : List ι :=
  turns.filterMap fun
    | .enter _ request => some request.mount
    | .leave _ => none

theorem completed_entered {turns : List (Turn ι)} {request : Request ι}
    (h : request ∈ completed requests turns) :
    (∃ thread, requests thread = some request) ∨ request.mount ∈ entered turns := by
  induction turns generalizing requests with
  | nil => cases h
  | cons turn turns ih =>
      cases turn with
      | enter thread first =>
          rw [completed] at h
          cases hr : requests thread with
          | some q =>
              rw [hr] at h
              exact (ih h).imp_right (List.mem_cons_of_mem _)
          | none =>
              rw [hr] at h
              rcases ih h with ⟨thread', ht⟩ | hmem
              · rw [Function.update_apply] at ht
                split at ht
                · cases ht
                  exact Or.inr List.mem_cons_self
                · exact Or.inl ⟨thread', ht⟩
              · exact Or.inr (List.mem_cons_of_mem _ hmem)
      | leave thread =>
          rw [completed] at h
          cases hr : requests thread with
          | none =>
              rw [hr] at h
              exact ih h
          | some q =>
              rw [hr] at h
              rcases List.mem_cons.mp h with rfl | h
              · exact Or.inl ⟨thread, hr⟩
              · refine (ih h).imp_left fun ⟨thread', ht⟩ => ?_
                rw [Function.update_apply] at ht
                split at ht
                · cases ht
                · exact ⟨thread', ht⟩

theorem mem_entered {turns : List (Turn ι)} {request : Request ι}
    (h : request ∈ completed (fun _ => none) turns) : request.mount ∈ entered turns :=
  (completed_entered h).resolve_left fun ⟨_, hnone⟩ => Option.some_ne_none _ hnone.symm

variable [DecidableEq ι]

theorem run_served (turns : List (Turn ι))
    (hserves : ∀ i ∈ entered turns, Serves (ext4 (mounts i).dev (mounts i).rd fuel) (g i))
    (hp : ∀ i, Projectable (g i)) (hinv : ∀ i, Inv (g i) (s.trees i)) (hway : UnderWay g requests s) :
    run mounts fuel fileNameMatch s turns =
      serveAll (serve mounts fuel fileNameMatch g) (completed requests turns) s.sessions := by
  induction turns generalizing s requests with
  | nil => rfl
  | cons turn turns ih =>
      cases turn with
      | enter thread request =>
          have hthread := hway thread
          have hlater := fun i hi => hserves i (List.mem_cons_of_mem request.mount hi)
          rw [run, step, completed]
          cases hr : requests thread with
          | some q =>
              rw [hr] at hthread
              simp only [hthread, Option.map_some, pure_bind]
              rw [ih hlater hinv hway]
              exact bind_pure _
          | none =>
              rw [hr] at hthread
              obtain ⟨t', heq, hinv'⟩ := enter_served (hserves _ List.mem_cons_self) (hp _)
                (hinv request.mount) request.self request.callback
              have htrees : ∀ i, Inv (g i) (Function.update s.trees request.mount t' i) := by
                intro i
                by_cases hi : i = request.mount
                · subst hi
                  rwa [Function.update_self]
                · rw [Function.update_of_ne hi]
                  exact hinv i
              simp only [hthread, Option.map_none, heq, pure_bind]
              exact (congrArg (· >>= _) (ih hlater htrees (hway.update rfl))).trans (bind_pure _)
      | leave thread =>
          have hthread := hway thread
          rw [run, step, completed]
          cases hr : requests thread with
          | none =>
              rw [hr] at hthread
              simp only [hthread, Option.map_none, pure_bind]
              rw [ih hserves hinv hway]
              exact bind_pure _
          | some q =>
              rw [hr] at hthread
              simp only [hthread, Option.map_some, bind_assoc, pure_bind, serveAll, serve]
              congr 1
              funext r
              exact congrArg (· >>= _) (ih hserves hinv (hway.update rfl))

end Runs

/-- However the callbacks of any number of mounts are interleaved, they answer as if each
were served at one blow, in the order of completion, by the volumes themselves. -/
theorem answers_as_volumes {ι : Type} [DecidableEq ι] (mounts : ι → Mount Id) (fuel : Nat)
    (fileNameMatch : Option (WString → WString → Bool)) (g : ι → FsReader Id)
    (hserves : ∀ i, Serves (ext4 (mounts i).dev (mounts i).rd fuel) (g i))
    (hp : ∀ i, Projectable (g i)) (turns : List (Turn ι)) :
    run mounts fuel fileNameMatch (start ι) turns =
      serveAll (serve mounts fuel fileNameMatch g) (completed (fun _ => none) turns) ∅ :=
  run_served turns (fun i _ => hserves i) hp (fun _ => Inv.empty) underWay_start

section Example

def closedOn (fs : FsReader (ExceptT Fault Id)) (inodes : List UInt32) : Bool :=
  inodes.contains 2 && inodes.all fun d =>
    (result (fs.statInode d)).isSome && (result (fs.listDirectory d)).any fun list =>
      list.all fun entries => entries.all fun e => inodes.contains e.inode

def projectableOn (fs : FsReader (ExceptT Fault Id)) (inodes : List UInt32) : Bool :=
  inodes.all fun d => ((answers fs).listDirectory d).all fun entries =>
    (entries.all fun e => e.name.all fun c => !isSeparator c) &&
      decide (entries.Pairwise fun e e' => stricmp e.name e'.name = false)

variable {fs : FsReader (ExceptT Fault Id)} {inodes : List UInt32}

theorem closed_at (h : closedOn fs inodes = true) {d : UInt32} (hd : d ∈ inodes) :
    (∃ st, fs.statInode d = pure st ∧ (answers fs).statInode d = st) ∧
      ∃ list, fs.listDirectory d = pure list ∧ (answers fs).listDirectory d = list ∧
        ∀ entries, list = some entries → ∀ e ∈ entries, e.inode ∈ inodes := by
  simp only [closedOn, Bool.and_eq_true, List.all_eq_true, Option.any_eq_true, Option.all_eq_true,
    List.contains_iff_mem] at h
  obtain ⟨hst, list, hlist, hall⟩ := h.2 d hd
  obtain ⟨st, hst⟩ := Option.isSome_iff_exists.mp hst
  exact ⟨⟨st, result_eq_some.mp hst, congrArg Option.join hst⟩,
    list, result_eq_some.mp hlist, congrArg Option.join hlist, hall⟩

theorem linked_closed (h : closedOn fs inodes = true) {d : UInt32} (hd : Linked (answers fs) d) :
    d ∈ inodes := by
  induction hd with
  | root =>
      simp only [closedOn, Bool.and_eq_true, List.contains_iff_mem] at h
      exact h.1
  | entry _ list mem ih =>
      obtain ⟨_, list', _, hans, hclosed⟩ := closed_at h ih
      exact hclosed _ (hans.symm.trans list) _ mem

theorem serves_of_closed (h : closedOn fs inodes = true) : Serves fs (answers fs) where
  isMounted := rfl
  stat i hi := by
    obtain ⟨⟨st, hst, hans⟩, _⟩ := closed_at h (linked_closed h hi)
    rw [hst, hans]
  list i hi := by
    obtain ⟨_, list, hlist, hans, _⟩ := closed_at h (linked_closed h hi)
    rw [hlist, hans]

theorem projectable_of_closed (h : closedOn fs inodes = true) (hp : projectableOn fs inodes = true) :
    Projectable (answers fs) := by
  have hall : ∀ d, Linked (answers fs) d → ∀ entries, (answers fs).listDirectory d = some entries →
      (∀ e ∈ entries, ∀ c ∈ e.name, isSeparator c = false) ∧
        entries.Pairwise fun e e' => stricmp e.name e'.name = false := by
    intro d hd entries hlist
    simp only [projectableOn, List.all_eq_true, Option.all_eq_true, Bool.and_eq_true,
      Bool.not_eq_true', decide_eq_true_eq] at hp
    exact hp d (linked_closed h hd) entries hlist
  exact ⟨fun d hd entries hlist => (hall d hd entries hlist).1,
    fun d hd entries hlist => (hall d hd entries hlist).2⟩

def plainMount : Mount Id := ⟨plainDevice, plainRd⟩

def plainSource : FsReader (ExceptT Fault Id) := ext4 plainMount.dev plainMount.rd 2

theorem plain_closed : closedOn plainSource [2, 11, 12, 13] = true := by
  decide +kernel

theorem plain_projectable : Projectable (answers plainSource) :=
  projectable_of_closed plain_closed (by decide +kernel)

/-- Two mounts: a scan of the one is under way while a file of the other is read. -/
def crossedTurns : List (Turn Bool) :=
  [.enter 0 ⟨true, true, .startDirEnum none .zero⟩,
    .enter 1 ⟨false, true, .getFileData (some [0x46]) 1 2 (some [])⟩, .leave 0,
    .enter 0 ⟨true, true, .getPlaceholderInfo (some [0x44])⟩, .leave 1,
    .enter 1 ⟨false, true, .startDirEnum (some [0x66]) .zero⟩, .leave 1, .leave 0]

theorem answers_as_volumes_plain :
    run (fun _ : Bool => plainMount) 2 none (start Bool) crossedTurns =
      serveAll (serve (fun _ => plainMount) 2 none fun _ => answers plainSource)
        [⟨true, true, .startDirEnum none .zero⟩, ⟨false, true, .getFileData (some [0x46]) 1 2 (some [])⟩,
          ⟨false, true, .startDirEnum (some [0x66]) .zero⟩,
          ⟨true, true, .getPlaceholderInfo (some [0x44])⟩] ∅ :=
  answers_as_volumes _ _ _ _ (fun _ => serves_of_closed plain_closed) (fun _ => plain_projectable)
    crossedTurns

end Example

end Linux2Win.Provider
