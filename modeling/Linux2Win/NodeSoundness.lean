import Linux2Win.Resolvers
import Linux2Win.TreeGrowth

namespace Linux2Win.NodeSoundness

open Bytes Devices Reader Directory Programs Vfs Caches NodeTree NodeWalk TreeCalls TreeGrowth NodeCache
open Joins PathNames Listings ListedPaths Resolvers

/-- The names of entries, each listed in the directory that the one before leads to. -/
inductive Chain (fs : FsReader (ExceptT Fault Id)) : List Name → UInt32 → Prop
  | root : Chain fs [] 2
  | entry {names : List Name} {d : UInt32} {entries : List DirEntryInfo} {e : DirEntryInfo}
      (chain : Chain fs names d) (list : fs.listDirectory d = pure (some entries)) (mem : e ∈ entries) :
      Chain fs (names ++ [e.name]) e.inode

structure Genuine (fs : FsReader (ExceptT Fault Id)) (names : List Name) (info : NodeInfo) : Prop where
  chain : Chain fs names info.inodeNum
  path : info.relativePath = joinNames names
  stat : ∃ st, fs.statInode info.inodeNum = pure (some st) ∧ info.fileSize = st.size ∧
    info.isDirectory = (names.isEmpty || st.isDirectory)

/-- Two paths have the same components up to the case of letters, as `_stricmp` sees it. -/
def SameParts (path path' : Name) : Prop :=
  List.Forall₂ (fun part part' => stricmp part part' = true) (splitNorm [] (normalizePath path))
    (splitNorm [] (normalizePath path'))

def foldCase (path : Name) : Name := path.map Guids.toLower

/-- The node that a path leads to is genuine, and its own path is this path up to the
case of letters. -/
structure Sound (fs : FsReader (ExceptT Fault Id)) (path : Name) (info : NodeInfo) : Prop where
  genuine : ∃ names, Genuine fs names info
  parts : SameParts info.relativePath path
  folded : 0 ∉ path → foldCase (normalizePath info.relativePath) = foldCase (normalizePath path)

def Keyed (t : VfsTree) : Prop :=
  ∀ q id, t.nodeCache.lookup q = some id → ∃ info, infoAt t id = some info ∧ cacheKey info = q

section Keys

variable {g : FsReader Id} {t t' : VfsTree}

theorem keyed_empty : Keyed Vfs.empty := fun _ _ h => nomatch h

theorem keyed_root (st : FileStat) : Keyed (Vfs.empty.addRoot st) := by
  intro q id hid
  by_cases hq : q = []
  · subst hq
    rw [VfsTree.addRoot, AList.lookup_insert] at hid
    cases hid
    exact ⟨rootInfo st, rfl, rfl⟩
  · rw [VfsTree.addRoot, AList.lookup_insert_ne hq] at hid
    cases hid

theorem keyed_load {dir : NodeId} {n : VfsNode} (hn : t.nodes[dir]? = some n)
    (un : n.childrenLoaded = false) (h : Keyed t) : Keyed (loadDir g t dir n.info) := by
  intro q id hid
  rcases lookup_insertAll_cases t.nodeCache t.nodes.length (kids g n.info) q with
    ⟨j, hlast, hlookup⟩ | ⟨_, hlookup⟩
  · obtain rfl : t.nodes.length + j = id := Option.some.inj (hlookup.symm.trans hid)
    obtain ⟨k, hk, hkey⟩ := hlast.getElem
    refine ⟨k, ?_, hkey⟩
    rw [infoAt, loadDir_kid, hk]
    rfl
  · obtain ⟨info, hinfo, hkey⟩ := h q id (hlookup.symm.trans hid)
    exact ⟨info, (loadDir_extends hn un).infoAt hinfo, hkey⟩

theorem keyed_of_grows (hgrows : Grows g t t') (h : Keyed t) : Keyed t' := by
  induction hgrows with
  | refl => exact h
  | root => exact keyed_root _
  | load _ hn un ih => exact keyed_load hn un ih

end Keys

section Letters

theorem isSeparator_toLower : ∀ c : Byte, isSeparator (Guids.toLower c) = isSeparator c :=
  forall_byte (by decide +kernel)

theorem takeWhile_nul {name : Name} (h : 0 ∉ name) : name.takeWhile (· != 0) = name := by
  rw [List.takeWhile_eq_self_iff]
  intro c hc
  rw [bne_iff_ne]
  rintro rfl
  exact h hc

theorem stricmp_iff {name name' : Name} (h : 0 ∉ name) (h' : 0 ∉ name') :
    stricmp name name' = true ↔ foldCase name = foldCase name' := by
  rw [stricmp, takeWhile_nul h, takeWhile_nul h', beq_iff_eq]
  rfl

theorem plain_of_stricmp {name part : Name} (hne : name ≠ []) (h0 : 0 ∉ name)
    (hpart : PlainName part) (h : stricmp name part = true) : PlainName name := by
  refine ⟨hne, fun c hc => ?_⟩
  rw [stricmp, takeWhile_nul h0, beq_iff_eq] at h
  have hmem : Guids.toLower c ∈ (part.takeWhile (· != 0)).map Guids.toLower := by
    rw [← h]
    exact List.mem_map_of_mem hc
  obtain ⟨d, hd, heq⟩ := List.mem_map.mp hmem
  rw [← isSeparator_toLower, ← heq, isSeparator_toLower]
  exact hpart.2 d ((List.takeWhile_sublist _).subset hd)

theorem plain_of_match {names parts : List Name} (hne : ∀ name ∈ names, name ≠ [])
    (h0 : ∀ name ∈ names, 0 ∉ name) (hparts : ∀ part ∈ parts, PlainName part)
    (h : List.Forall₂ (fun name part => stricmp name part = true) names parts) :
    ∀ name ∈ names, PlainName name := by
  induction h with
  | nil => exact nofun
  | cons hmatch _ ih =>
      rw [List.forall_mem_cons] at hne h0 hparts ⊢
      exact ⟨plain_of_stricmp hne.1 h0.1 hparts.1 hmatch, ih hne.2 h0.2 hparts.2⟩

theorem nul_not_mem_join {names : List Name} (h : ∀ name ∈ names, 0 ∉ name) : 0 ∉ joinNames names := by
  intro h0
  rcases mem_join h0 with h0 | ⟨name, hname, h0⟩
  · exact absurd h0 (by decide)
  · exact h name hname h0

theorem foldCase_join {names parts : List Name} (h0 : ∀ name ∈ names, 0 ∉ name)
    (h0' : ∀ part ∈ parts, 0 ∉ part)
    (h : List.Forall₂ (fun name part => stricmp name part = true) names parts) :
    foldCase (joinNames names) = foldCase (joinNames parts) := by
  have hmap : names.map foldCase = parts.map foldCase := by
    induction h with
    | nil => rfl
    | cons hmatch _ ih =>
        rw [List.forall_mem_cons] at h0 h0'
        rw [List.map_cons, List.map_cons, ih h0.2 h0'.2, (stricmp_iff h0.1 h0'.1).mp hmatch]
  rw [foldCase, foldCase, join_map, join_map]
  exact congrArg _ hmap

end Letters

section Walks

variable {g : FsReader Id} {info w : NodeInfo} {names parts : List Name}

theorem walkInfo_named (hnamed : Named g names info) (h : walkInfo g parts info = some w) :
    ∃ more, Named g (names ++ more) w ∧
      List.Forall₂ (fun name part => stricmp name part = true) more parts := by
  induction parts generalizing info names with
  | nil =>
      cases h
      exact ⟨[], by rwa [List.append_nil], .nil⟩
  | cons part parts ih =>
      obtain ⟨_, k, hfind, hrest⟩ := walkInfo_cons_iff.mp h
      obtain ⟨more, hmore, hparts⟩ := ih (hnamed.kid (List.mem_of_find?_eq_some hfind)) hrest
      refine ⟨k.name :: more, ?_, .cons (by simpa using List.find?_some hfind) hparts⟩
      rwa [List.append_assoc] at hmore

end Walks

section Nodes

variable {fs : FsReader (ExceptT Fault Id)} {info : NodeInfo} {names : List Name}

/-- What the names of the children keep to. -/
structure Spelled (fs : FsReader (ExceptT Fault Id)) : Prop where
  ne_nil : ∀ k, Child (loadable fs) k → k.name ≠ []
  no_nul : ∀ k, Child (loadable fs) k → 0 ∉ k.name

theorem Chain.forall_names {P : Name → Prop} (h : ∀ names d, Chain fs names d → ∀ entries,
    fs.listDirectory d = pure (some entries) → ∀ e ∈ entries, P e.name) {d : UInt32}
    (hchain : Chain fs names d) : ∀ name ∈ names, P name := by
  induction hchain with
  | root => exact fun _ h => nomatch h
  | entry chain list mem ih =>
      intro name hname
      rcases List.mem_append.mp hname with hname | hname
      · exact ih name hname
      · rw [List.mem_singleton.mp hname]
        exact h _ _ chain _ list _ mem

theorem named_names {g : FsReader Id} {P : Name → Prop} (h : ∀ k, Child g k → P k.name)
    (hnamed : Named g names info) : ∀ name ∈ names, P name := by
  induction hnamed with
  | root => exact fun _ h => nomatch h
  | kid named hk ih =>
      intro name hname
      rcases List.mem_append.mp hname with hname | hname
      · exact ih name hname
      · rw [List.mem_singleton.mp hname]
        exact h _ ⟨_, named.reached, hk⟩

theorem chain_of_linked {d : UInt32} (h : Linked (loadable fs) d) : ∃ names, Chain fs names d := by
  induction h with
  | root => exact ⟨[], .root⟩
  | entry _ list mem ih =>
      obtain ⟨names, hchain⟩ := ih
      exact ⟨_, hchain.entry (list_of_loadable list).1 mem⟩

theorem entry_of_child (h : Child (loadable fs) info) : ∃ names d entries e, Chain fs names d ∧
    fs.listDirectory d = pure (some entries) ∧ e ∈ entries ∧ e.name = info.name := by
  obtain ⟨parent, hreached, hk⟩ := h
  obtain ⟨names, hchain⟩ := chain_of_linked (linked_of_reached hreached)
  obtain ⟨_, entries, e, st, hlist, he, _, rfl⟩ := mem_kids hk
  exact ⟨names, _, entries, e, hchain, (list_of_loadable hlist).1, he, rfl⟩

theorem spelled_of_listings (h : ∀ names d, Chain fs names d → ∀ entries,
    fs.listDirectory d = pure (some entries) → ∀ e ∈ entries, e.name ≠ [] ∧ 0 ∉ e.name) :
    Spelled fs := by
  constructor
  all_goals
    intro k hk
    obtain ⟨names, d, entries, e, hchain, hlist, he, hname⟩ := entry_of_child hk
    rw [← hname]
  · exact (h names d hchain entries hlist e he).1
  · exact (h names d hchain entries hlist e he).2

theorem genuine_of_named (hs : Spelled fs) (h : Named (loadable fs) names info) :
    Genuine fs names info := by
  induction h with
  | root h =>
      obtain ⟨_, st, hst, rfl⟩ := rootNode_eq_some_iff.mp h
      exact ⟨.root, rfl, st, stat_of_loadable hst, rfl, rfl⟩
  | @kid names parent k named h ih =>
      obtain ⟨_, entries, e, st, hlist, he, hst, rfl⟩ := mem_kids h
      refine ⟨.entry ih.chain (list_of_loadable hlist).1 he,
        childInfo_path ih.path (named_names hs.ne_nil named) e st,
        st, stat_of_loadable hst, rfl, ?_⟩
      simp [childInfo]

theorem nul_not_mem_path (hs : Spelled fs) (h : Reached (loadable fs) info) : 0 ∉ info.relativePath := by
  obtain ⟨names, hnamed⟩ := reached_named h
  rw [(genuine_of_named hs hnamed).path]
  exact nul_not_mem_join (named_names hs.no_nul hnamed)

theorem nul_not_mem_key (hs : Spelled fs) (h : Reached (loadable fs) info) : 0 ∉ cacheKey info := by
  rw [cacheKey, normalizePath_eq]
  exact nul_not_mem_join fun name hname h0 => nul_not_mem_path hs h (mem_pathParts hname 0 h0)

theorem sameParts_refl (path : Name) : SameParts path path :=
  List.forall₂_same.mpr fun _ _ => stricmp_refl _

theorem sound_of_key (hs : Spelled fs) (hreached : Reached (loadable fs) info) {path : Name}
    (hkey : cacheKey info = normalizePath path) : Sound fs path info := by
  obtain ⟨names, hnamed⟩ := reached_named hreached
  refine ⟨⟨names, genuine_of_named hs hnamed⟩, ?_, fun _ => ?_⟩
  · rw [SameParts, ← hkey]
    exact sameParts_refl _
  · rw [← hkey]
    rfl

theorem sound_of_walk (hs : Spelled fs) {root : NodeInfo} (hroot : rootNode (loadable fs) = some root)
    {path : Name} (h : walkInfo (loadable fs) (pathParts path) root = some info) : Sound fs path info := by
  obtain ⟨names, hnamed, hparts⟩ := walkInfo_named (.root hroot) h
  rw [List.nil_append] at hnamed
  have hgenuine := genuine_of_named hs hnamed
  have h0 : ∀ name ∈ names, 0 ∉ name := named_names hs.no_nul hnamed
  have hplain := plain_of_match (named_names hs.ne_nil hnamed) h0 (pathParts_plain path) hparts
  have hsplit : splitNorm [] (normalizePath info.relativePath) = names := by
    rw [splitNorm_normalizePath, hgenuine.path, pathParts_join hplain]
  refine ⟨⟨names, hgenuine⟩, ?_, fun hpath => ?_⟩
  · rw [SameParts, hsplit, splitNorm_normalizePath]
    exact hparts
  · rw [hgenuine.path, normalizePath_join hplain, normalizePath_eq]
    exact foldCase_join h0 (fun part hpart hmem => hpath (mem_pathParts hpart 0 hmem)) hparts

theorem sound_of_find (hs : Spelled fs) {t t' : VfsTree} (h : Inv (loadable fs) t) (hk : Keyed t)
    {path : Name} {id : NodeId} (hfind : findNode fs path t = pure (some id, t')) :
    ∃ info, infoAt t' id = some info ∧ Sound fs path info := by
  have hfind := findNode_loadable hfind
  by_cases hmiss : normalizePath path = [] ∨ t.nodeCache.lookup (normalizePath path) = none
  · have hwalk := findNode_uncached h hmiss hfind
    rw [uncached_parts] at hwalk
    obtain ⟨info, hinfo, heq⟩ := Option.map_eq_some_iff.mp hwalk.symm
    obtain ⟨root, hroot, hwalk⟩ := Option.bind_eq_some_iff.mp hinfo
    exact ⟨info, heq.symm, sound_of_walk hs hroot hwalk⟩
  · obtain ⟨hq, hhit⟩ := not_or.mp hmiss
    obtain ⟨c, hc⟩ := Option.ne_none_iff_exists'.mp hhit
    obtain ⟨info, hinfo, hkey⟩ := hk _ c hc
    obtain ⟨n, hn, rfl⟩ := Option.map_eq_some_iff.mp hinfo
    cases findNode_hit hq hc hfind
    exact ⟨n.info, hinfo, sound_of_key hs (h.reached _ n hn) hkey⟩

theorem sound_of_cache (hs : Spelled fs) {t : VfsTree} (h : Inv (loadable fs) t) (hk : Keyed t)
    {key : Name} {id : NodeId} (hlookup : t.nodeCache.lookup key = some id) :
    0 ∉ key ∧ ∃ info, infoAt t id = some info ∧ Sound fs key info := by
  obtain ⟨info, hinfo, rfl⟩ := hk key id hlookup
  obtain ⟨n, hn, rfl⟩ := Option.map_eq_some_iff.mp hinfo
  have hreached := h.reached id n hn
  refine ⟨nul_not_mem_key hs hreached, n.info, hinfo, sound_of_key hs hreached ?_⟩
  rw [cacheKey, normalizePath_eq, normalizePath_join (pathParts_plain _)]

theorem keyed_of_run {calls : List TreeCall} {t : VfsTree} (hrun : runCalls fs calls Vfs.empty = pure t) :
    Inv (loadable fs) t ∧ Keyed t := by
  have hrun := runCalls_loadable hrun
  have hgrows := runCalls_grows (g := loadable fs) Inv.empty calls
  rw [hrun] at hgrows
  exact ⟨inv_of_run hrun, keyed_of_grows hgrows keyed_empty⟩

end Nodes

section Ext4

variable {dev : Device Id} {rd : Ext4Reader} {fuel : Nat}

theorem spelled_ext4 (h : ∀ names d, Chain (ext4 dev rd fuel) names d → ∀ entries,
    listDirectory dev rd fuel d = pure (some entries) → ∀ e ∈ entries, 0 ∉ e.name) :
    Spelled (ext4 dev rd fuel) :=
  spelled_of_listings fun names d hchain entries hlist e he =>
    ⟨((listDirectory_spec hlist).2 e he).1, h names d hchain entries hlist e he⟩

end Ext4

/-- Whatever the calls before, every node that `find_node` returns and every node in the
cache is sound, and no key of the cache holds a NUL. -/
theorem nodes_sound (dev : Device Id) (rd : Ext4Reader) (fuel : Nat)
    (hnul : ∀ names d, Chain (ext4 dev rd fuel) names d → ∀ entries,
      listDirectory dev rd fuel d = pure (some entries) → ∀ e ∈ entries, 0 ∉ e.name)
    (calls : List TreeCall) (t : VfsTree) (hrun : runCalls (ext4 dev rd fuel) calls Vfs.empty = pure t) :
    (∀ path id t', findNode (ext4 dev rd fuel) path t = pure (some id, t') →
        ∃ info, infoAt t' id = some info ∧ Sound (ext4 dev rd fuel) path info) ∧
      ∀ key id, t.nodeCache.lookup key = some id →
        0 ∉ key ∧ ∃ info, infoAt t id = some info ∧ Sound (ext4 dev rd fuel) key info := by
  have hs := spelled_ext4 hnul
  obtain ⟨hinv, hkeyed⟩ := keyed_of_run hrun
  exact ⟨fun _ _ _ hfind => sound_of_find hs hinv hkeyed hfind,
    fun _ _ hlookup => sound_of_cache hs hinv hkeyed hlookup⟩

section Example

def separatorReader : FsReader (ExceptT Fault Id) := ext4 separatorDevice (plainReader 16) 2

def innerEntries : List DirEntryInfo := [⟨13, [0x62], 1, false, false⟩]

theorem separator_lists : separatorReader.listDirectory 2 = pure (some separatorEntries) ∧
    separatorReader.listDirectory 11 = pure (some innerEntries) ∧
    separatorReader.listDirectory 12 = pure none ∧ separatorReader.listDirectory 13 = pure none := by
  have h : result (separatorReader.listDirectory 2) = some (some separatorEntries) ∧
      result (separatorReader.listDirectory 11) = some (some innerEntries) ∧
      result (separatorReader.listDirectory 12) = some none ∧
      result (separatorReader.listDirectory 13) = some none := by
    decide +kernel
  simpa only [result_eq_some] using h

theorem separator_dirs {names : List Name} {d : UInt32} (h : Chain separatorReader names d) :
    d = 2 ∨ d = 11 ∨ d = 12 ∨ d = 13 := by
  obtain ⟨h2, h11, h12, h13⟩ := separator_lists
  induction h with
  | root => exact Or.inl rfl
  | entry _ list mem ih =>
      rcases ih with rfl | rfl | rfl | rfl
      · cases pure_injective (list.symm.trans h2)
        rcases List.mem_cons.mp mem with rfl | mem
        · exact Or.inr (Or.inl rfl)
        · exact Or.inr (Or.inr (Or.inl (congrArg DirEntryInfo.inode (List.mem_singleton.mp mem))))
      · cases pure_injective (list.symm.trans h11)
        exact Or.inr (Or.inr (Or.inr (congrArg DirEntryInfo.inode (List.mem_singleton.mp mem))))
      · exact nomatch pure_injective (list.symm.trans h12)
      · exact nomatch pure_injective (list.symm.trans h13)

theorem separator_entries {names : List Name} {d : UInt32} (h : Chain separatorReader names d)
    {entries : List DirEntryInfo} (hlist : separatorReader.listDirectory d = pure (some entries)) :
    entries = separatorEntries ∨ entries = innerEntries := by
  obtain ⟨h2, h11, h12, h13⟩ := separator_lists
  rcases separator_dirs h with rfl | rfl | rfl | rfl
  · exact Or.inl (Option.some.inj (pure_injective (hlist.symm.trans h2)))
  · exact Or.inr (Option.some.inj (pure_injective (hlist.symm.trans h11)))
  · exact nomatch pure_injective (hlist.symm.trans h12)
  · exact nomatch pure_injective (hlist.symm.trans h13)

theorem separator_no_nul : ∀ names d, Chain separatorReader names d → ∀ entries,
    separatorReader.listDirectory d = pure (some entries) → ∀ e ∈ entries, 0 ∉ e.name := by
  intro names d hchain entries hlist
  rcases separator_entries hchain hlist with rfl | rfl
  · decide
  · decide

end Example

theorem nodes_sound_separator : ∃ t,
    runCalls separatorReader [.findNode [0x61, backslash, 0x62]] Vfs.empty = pure t ∧
      (∀ path id t', findNode separatorReader path t = pure (some id, t') →
        ∃ info, infoAt t' id = some info ∧ Sound separatorReader path info) ∧
      ∀ key id, t.nodeCache.lookup key = some id →
        0 ∉ key ∧ ∃ info, infoAt t id = some info ∧ Sound separatorReader key info := by
  have hruns : (result (runCalls separatorReader [.findNode [0x61, backslash, 0x62]] Vfs.empty)).isSome = true := by
    decide +kernel
  obtain ⟨t, ht⟩ := Option.isSome_iff_exists.mp hruns
  have hrun := result_eq_some.mp ht
  exact ⟨t, hrun, nodes_sound separatorDevice (plainReader 16) 2 separator_no_nul _ t hrun⟩

/-- `_stricmp` reads a part up to its first NUL, so the path a, NUL, z leads to the node
a, whose path is not this one. -/
theorem nul_cuts_path :
    (∀ names d, Chain separatorReader names d → ∀ entries,
      separatorReader.listDirectory d = pure (some entries) → ∀ e ∈ entries, 0 ∉ e.name) ∧
    ∃ id t info, findNode separatorReader [0x61, 0, 0x7A] Vfs.empty = pure (some id, t) ∧
      infoAt t id = some info ∧ info.relativePath = [0x61] ∧
      foldCase (normalizePath info.relativePath) ≠ foldCase (normalizePath [0x61, 0, 0x7A]) := by
  refine ⟨separator_no_nul, ?_⟩
  have hruns : result (findNode separatorReader [0x61, 0, 0x7A] Vfs.empty >>= fun found =>
      pure (found.1, (infoAt found.2 1).map NodeInfo.relativePath)) = some (some 1, some [0x61]) := by
    decide +kernel
  obtain ⟨⟨found, t⟩, hfind, hseen⟩ := bind_eq_pure.mp (result_eq_some.mp hruns)
  obtain ⟨hid, hinfo⟩ := Prod.mk.inj (pure_injective hseen)
  obtain ⟨info, hinfo, hpath⟩ := Option.map_eq_some_iff.mp hinfo
  obtain rfl : found = some 1 := hid
  refine ⟨1, t, info, hfind, hinfo, hpath, ?_⟩
  rw [hpath]
  decide

end Linux2Win.NodeSoundness
