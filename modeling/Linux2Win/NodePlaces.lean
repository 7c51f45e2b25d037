import Linux2Win.NodeSoundness

namespace Linux2Win.NodePlaces

open Bytes Devices Reader Directory Programs Vfs Caches NodeTree NodeWalk TreeCalls TreeGrowth NodeCache
open Joins PathNames ListedPaths Resolvers NodeSoundness

inductive Place (t : VfsTree) : List Name → NodeId → Prop
  | root {r : NodeId} (h : t.root = some r) : Place t [] r
  | child {names : List Name} {dir c : NodeId} {n : VfsNode} {k : NodeInfo} (place : Place t names dir)
      (hn : t.nodes[dir]? = some n) (loaded : n.childrenLoaded = true) (mem : c ∈ n.children)
      (hk : infoAt t c = some k) : Place t (names ++ [k.name]) c

def Placed (t : VfsTree) : Prop := ∀ (i : NodeId) (n : VfsNode), t.nodes[i]? = some n → ∃ names, Place t names i

section Growth

variable {g : FsReader Id} {t t' : VfsTree} {names : List Name} {i : NodeId}

theorem Place.mono (hext : Extends t t') (h : Place t names i) : Place t' names i := by
  induction h with
  | root h => exact .root (hext.root _ h)
  | child _ hn loaded mem hk ih =>
      obtain ⟨n', hn', _, hsame⟩ := hext.node _ _ hn
      obtain rfl := hsame loaded
      exact .child ih hn' loaded mem (hext.infoAt hk)

theorem placed_load {dir : NodeId} {n : VfsNode} (hn : t.nodes[dir]? = some n)
    (un : n.childrenLoaded = false) (h : Placed t) : Placed (loadDir g t dir n.info) := by
  intro i m hm
  have hext := loadDir_extends (g := g) hn un
  have hlt := (List.getElem?_eq_some_iff.mp hn).1
  by_cases hi : i < t.nodes.length
  · obtain ⟨names, hplace⟩ := h i t.nodes[i] (List.getElem?_eq_getElem hi)
    exact ⟨names, hplace.mono hext⟩
  · obtain ⟨j, rfl⟩ := Nat.exists_eq_add_of_le (Nat.not_lt.mp hi)
    obtain ⟨names, hplace⟩ := h dir n hn
    have hinfo : infoAt (loadDir g t dir n.info) (t.nodes.length + j) = some m.info := by
      rw [infoAt, hm, Option.map_some]
    refine ⟨_, .child (hplace.mono hext) (loadDir_node hlt) rfl ?_ hinfo⟩
    rw [loadDir_kid, Option.map_eq_some_iff] at hm
    obtain ⟨k, hk, _⟩ := hm
    exact List.mem_range'_1.mpr ⟨Nat.le_add_right _ _,
      Nat.add_lt_add_left (List.getElem?_eq_some_iff.mp hk).1 _⟩

theorem placed_of_grows (hgrows : Grows g t t') (h : Placed t) : Placed t' := by
  induction hgrows with
  | refl => exact h
  | root =>
      intro i n hn
      obtain rfl : i = 0 := by
        have hlt := (List.getElem?_eq_some_iff.mp hn).1
        exact Nat.lt_one_iff.mp hlt
      exact ⟨[], .root rfl⟩
  | load _ hn un ih => exact placed_load hn un ih

end Growth

section Places

variable {g : FsReader Id} {t : VfsTree} {names names' : List Name} {i i' : NodeId} {info : NodeInfo}
  {entries : List DirEntryInfo}

theorem child_info (h : Inv g t) {dir c : NodeId} {n : VfsNode} (hn : t.nodes[dir]? = some n)
    (hc : c ∈ n.children) : n.childrenLoaded = true ∧ ∃ k ∈ kids g n.info, infoAt t c = some k := by
  have hl : n.childrenLoaded = true := by
    rw [← Bool.not_eq_false]
    intro hun
    rw [h.unloaded dir n hn hun] at hc
    cases hc
  have hmem : infoAt t c ∈ (kids g n.info).map some := by
    rw [← h.loaded dir n hn hl]
    exact List.mem_map_of_mem hc
  obtain ⟨k, hk, hinfo⟩ := List.mem_map.mp hmem
  exact ⟨hl, k, hk, hinfo.symm⟩

theorem child_at (h : Inv g t) {dir c : NodeId} {n : VfsNode} {k : NodeInfo} {j : Nat}
    (hn : t.nodes[dir]? = some n) (hl : n.childrenLoaded = true) (hj : n.children[j]? = some c)
    (hk : infoAt t c = some k) : (kids g n.info)[j]? = some k := by
  have hget := congrArg (fun l => l[j]?) (h.loaded dir n hn hl)
  simp only [List.getElem?_map, hj, hk, Option.map_some] at hget
  obtain ⟨a, ha, heq⟩ := Option.map_eq_some_iff.mp hget.symm
  rw [ha, Option.some.inj heq]

theorem Place.named (h : Inv g t) (hplace : Place t names i) :
    ∃ info, infoAt t i = some info ∧ Named g names info := by
  induction hplace with
  | root hr =>
      obtain ⟨info, hinfo, hroot⟩ := h.root _ hr
      exact ⟨info, hinfo, .root hroot⟩
  | @child names dir c n k _ hn loaded mem hk ih =>
      obtain ⟨info, hinfo, hnamed⟩ := ih
      rw [infoAt, hn] at hinfo
      cases hinfo
      obtain ⟨_, k', hk', hinfo'⟩ := child_info h hn mem
      cases hk.symm.trans hinfo'
      exact ⟨k, hk, hnamed.kid hk'⟩

theorem nodup_names (hu : (entries.map DirEntryInfo.name).Nodup) :
    ((entryInfos g info entries).map NodeInfo.name).Nodup := by
  refine hu.sublist ?_
  induction entries with
  | nil => exact List.Sublist.refl _
  | cons e entries ih =>
      rw [List.map_cons, List.nodup_cons] at hu
      rw [entryInfos, List.filterMap_cons, List.map_cons]
      cases hst : (g.statInode e.inode : Option FileStat) with
      | none => exact (ih hu.2).trans (List.sublist_cons_self _ _)
      | some st => exact (ih hu.2).cons_cons _

theorem nodup_kids (hu : ∀ entries, g.listDirectory info.inodeNum = some entries →
    (entries.map DirEntryInfo.name).Nodup) : ((kids g info).map NodeInfo.name).Nodup := by
  rw [kids, listing]
  split
  · cases hlist : (g.listDirectory info.inodeNum : Option (List DirEntryInfo)) with
    | none => exact List.nodup_nil
    | some entries => exact nodup_names (hu entries hlist)
  · exact List.nodup_nil

theorem child_unique (h : Inv g t) {dir c c' : NodeId} {n : VfsNode} {k k' : NodeInfo}
    (hn : t.nodes[dir]? = some n) (hu : ((kids g n.info).map NodeInfo.name).Nodup)
    (hc : c ∈ n.children) (hc' : c' ∈ n.children) (hk : infoAt t c = some k)
    (hk' : infoAt t c' = some k') (hname : k.name = k'.name) : c = c' := by
  have hl := (child_info h hn hc).1
  obtain ⟨j, hj⟩ := List.mem_iff_getElem?.mp hc
  obtain ⟨j', hj'⟩ := List.mem_iff_getElem?.mp hc'
  have hname_at : ∀ {j : Nat} {k : NodeInfo}, (kids g n.info)[j]? = some k →
      ((kids g n.info).map NodeInfo.name)[j]? = some k.name := by
    intro j k hk
    rw [List.getElem?_map, hk, Option.map_some]
  have hfirst := hname_at (child_at h hn hl hj hk)
  have hsecond := hname_at (child_at h hn hl hj' hk')
  rw [← hname] at hsecond
  obtain ⟨hlt, _⟩ := List.getElem?_eq_some_iff.mp hfirst
  obtain rfl := (List.getElem?_inj hlt hu).mp (hfirst.trans hsecond.symm)
  exact Option.some.inj (hj.symm.trans hj')

theorem Place.unique (h : Inv g t) (hu : ∀ d, Linked g d → ∀ entries, g.listDirectory d = some entries →
      (entries.map DirEntryInfo.name).Nodup) (hplace : Place t names i) (hplace' : Place t names i') :
    i = i' := by
  induction hplace generalizing i' with
  | root hr =>
      generalize hnil : ([] : List Name) = names at hplace'
      cases hplace' with
      | root hr' => exact Option.some.inj (hr.symm.trans hr')
      | child => exact absurd hnil.symm (by simp)
  | @child names dir c n k _ hn _ mem hk ih =>
      generalize hnames : names ++ [k.name] = names₁ at hplace'
      cases hplace' with
      | root => exact absurd hnames (by simp)
      | @child names' dir' _ n' k' place' hn' _ mem' hk' =>
          obtain ⟨rfl, hname⟩ := List.append_inj' hnames rfl
          obtain rfl := ih place'
          cases hn.symm.trans hn'
          have hlinked := linked_of_reached (h.reached dir n hn)
          exact child_unique h hn (nodup_kids (hu _ hlinked)) mem mem' hk hk'
            (List.singleton_injective hname)

end Places

section Legal

variable {fs : FsReader (ExceptT Fault Id)} {t : VfsTree}

def LegalNames (entries : List DirEntryInfo) : Prop :=
  (entries.map DirEntryInfo.name).Nodup ∧ ∀ e ∈ entries, e.name ≠ [] ∧ slash ∉ e.name ∧ 0 ∉ e.name

def Legal (fs : FsReader (ExceptT Fault Id)) : Prop :=
  ∀ names d, Chain fs names d → ∀ entries, fs.listDirectory d = pure (some entries) → LegalNames entries

def NoBackslash (fs : FsReader (ExceptT Fault Id)) : Prop :=
  ∀ names d, Chain fs names d → ∀ entries, fs.listDirectory d = pure (some entries) →
    ∀ e ∈ entries, backslash ∉ e.name

theorem spelled_of_legal (h : Legal fs) : Spelled fs :=
  spelled_of_listings fun names d hchain entries hlist e he =>
    ⟨((h names d hchain entries hlist).2 e he).1, ((h names d hchain entries hlist).2 e he).2.2⟩

theorem plain_of_legal (h : Legal fs) (hb : NoBackslash fs) {names : List Name} {d : UInt32}
    (hchain : Chain fs names d) : ∀ name ∈ names, PlainName name := by
  refine hchain.forall_names fun names d hchain entries hlist e he => ?_
  obtain ⟨hne, hslash, _⟩ := (h names d hchain entries hlist).2 e he
  exact plainName_of_separators hne hslash (hb names d hchain entries hlist e he)

theorem cacheKey_of_place (h : Legal fs) (hb : NoBackslash fs) (hinv : Inv (loadable fs) t)
    {names : List Name} {i : NodeId} (hplace : Place t names i) : ∃ info, infoAt t i = some info ∧
      cacheKey info = joinNames names ∧ ∀ name ∈ names, PlainName name := by
  obtain ⟨info, hinfo, hnamed⟩ := hplace.named hinv
  have hgenuine := genuine_of_named (spelled_of_legal h) hnamed
  have hplain := plain_of_legal h hb hgenuine.chain
  exact ⟨info, hinfo, by rw [cacheKey, hgenuine.path, normalizePath_join hplain], hplain⟩

/-- Where names are legal and hold no backslash, the cache has each child of a node
under its own key. -/
theorem cached_child (h : Legal fs) (hb : NoBackslash fs) (hinv : Inv (loadable fs) t) (hp : Placed t)
    {dir c : NodeId} {n : VfsNode} (hn : t.nodes[dir]? = some n) (hc : c ∈ n.children) :
    ∃ k, infoAt t c = some k ∧ normalizePath k.relativePath ≠ [] ∧
      t.nodeCache.lookup (normalizePath k.relativePath) = some c := by
  obtain ⟨hl, k, hmem, hk⟩ := child_info hinv hn hc
  obtain ⟨names, hplace⟩ := hp dir n hn
  have hchild := hplace.child hn hl hc hk
  obtain ⟨_, hk₁, hkey, hplain⟩ := cacheKey_of_place h hb hinv hchild
  cases hk.symm.trans hk₁
  have hne : cacheKey k ≠ [] := by
    rw [hkey]
    exact fun hnil => absurd ((join_eq_nil fun x hx => (hplain x hx).1).mp hnil) (by simp)
  refine ⟨k, hk, hne, ?_⟩
  cases hlookup : t.nodeCache.lookup (cacheKey k) with
  | none => exact absurd rfl (hinv.absent _ hlookup dir n hn hl k hmem)
  | some c' =>
      -- the cached node has the same names above it, so it is the child itself
      obtain ⟨dir', n', j, hn', hl', hj, hlast⟩ := hinv.cached _ c' hne hlookup
      have hc' := List.mem_of_getElem? hj
      obtain ⟨_, k', _, hk'⟩ := child_info hinv hn' hc'
      obtain ⟨names', hplace'⟩ := hp dir' n' hn'
      have hchild' := hplace'.child hn' hl' hc' hk'
      obtain ⟨_, hk₁', hkey', hplain'⟩ := cacheKey_of_place h hb hinv hchild'
      cases hk'.symm.trans hk₁'
      have hsame : cacheKey k' = cacheKey k := by
        obtain ⟨a, ha, hakey⟩ := hlast.getElem
        cases ha.symm.trans (child_at hinv hn' hl' hj hk')
        exact hakey
      have hnames := joinNames_injective (plain_of_names hplain') (plain_of_names hplain)
        (hkey'.symm.trans (hsame.trans hkey))
      rw [hnames] at hchild'
      refine hlookup.trans (congrArg some (hchild'.unique hinv (fun d hd entries hlist => ?_) hchild))
      obtain ⟨names, hchain⟩ := chain_of_linked hd
      exact (h names d hchain entries (list_of_loadable hlist).1).1

end Legal

/-- Where names are legal and hold no backslash, `find_node` returns every loaded node
for its own path, whatever the calls before. -/
theorem loaded_node_found (dev : Device Id) (rd : Ext4Reader) (fuel : Nat)
    (h : Legal (ext4 dev rd fuel)) (hb : NoBackslash (ext4 dev rd fuel)) (calls : List TreeCall)
    (t : VfsTree) (hrun : runCalls (ext4 dev rd fuel) calls Vfs.empty = pure t) (dir : NodeId)
    (n : VfsNode) (hn : t.nodes[dir]? = some n) (c : NodeId) (hc : c ∈ n.children) :
    ∃ k, infoAt t c = some k ∧ findNode (ext4 dev rd fuel) k.relativePath t = pure (some c, t) := by
  have hloads := runCalls_loadable hrun
  have hgrows := runCalls_grows (g := loadable (ext4 dev rd fuel)) Inv.empty calls
  rw [hloads] at hgrows
  have hplaced : Placed t := placed_of_grows hgrows fun _ _ hn => nomatch hn
  obtain ⟨k, hk, hne, hlookup⟩ := cached_child h hb (inv_of_run hloads) hplaced hn hc
  exact ⟨k, hk, findNode_cached hne hlookup⟩

section Example

theorem linked_of_chain {fs : FsReader (ExceptT Fault Id)} {names : List Name} {d : UInt32}
    (h : Chain fs names d) : Linked (answers fs) d := by
  induction h with
  | root => exact .root
  | entry _ list mem ih => exact .entry ih (answers_list (result_eq_some.mpr list)).2 mem

theorem caseReader_chain {names : List Name} {d : UInt32} (h : Chain caseReader names d)
    {entries : List DirEntryInfo} (hlist : caseReader.listDirectory d = pure (some entries)) :
    entries = caseEntries :=
  caseReader_entries (linked_of_chain h) (answers_list (result_eq_some.mpr hlist)).2

theorem caseReader_legal : Legal caseReader ∧ NoBackslash caseReader := by
  constructor
  · intro names d hchain entries hlist
    rw [caseReader_chain hchain hlist]
    exact ⟨by decide, by decide⟩
  · intro names d hchain entries hlist
    rw [caseReader_chain hchain hlist]
    decide

end Example

theorem loaded_node_found_case : ∃ t n,
    runCalls caseReader [.getRoot, .ensureChildrenLoaded 0] Vfs.empty = pure t ∧
      t.nodes[0]? = some n ∧ 2 ∈ n.children ∧
      ∃ k, infoAt t 2 = some k ∧ findNode caseReader k.relativePath t = pure (some 2, t) := by
  have hruns : result (runCalls caseReader [.getRoot, .ensureChildrenLoaded 0] Vfs.empty >>= fun t =>
      pure (t.nodes[0]?.map VfsNode.children)) = some (some [1, 2]) := by
    decide +kernel
  obtain ⟨t, hrun, hnodes⟩ := bind_eq_pure.mp (result_eq_some.mp hruns)
  obtain ⟨n, hn, hchildren⟩ := Option.map_eq_some_iff.mp (pure_injective hnodes)
  have hmem : 2 ∈ n.children := by
    rw [hchildren]
    decide
  obtain ⟨hlegal, hplain⟩ := caseReader_legal
  exact ⟨t, n, hrun, hn, hmem, loaded_node_found (caseDisk.device wholeDevice) (plainReader 16) 2
    hlegal hplain _ t hrun 0 n hn 2 hmem⟩

/-- The root has the child `a\b` with the inode 12. The directory a gets its child b
later, with the inode 13, and then the path of the one leads to the other. -/
theorem later_load_redirects : Legal separatorReader ∧ ∃ t,
    runCalls separatorReader [.getRoot, .ensureChildrenLoaded 0, .ensureChildrenLoaded 1] Vfs.empty = pure t ∧
      ∃ n k found, t.nodes[0]? = some n ∧ 2 ∈ n.children ∧ infoAt t 2 = some k ∧ k.inodeNum = 12 ∧
        findNode separatorReader k.relativePath t = pure found ∧ found.1 = some 3 ∧
          inodeOf found = some 13 := by
  refine ⟨fun names d hchain entries hlist => ?_, ?_⟩
  · rcases separator_entries hchain hlist with rfl | rfl
    · exact ⟨by decide, by decide⟩
    · exact ⟨by decide, by decide⟩
  · have hruns : result (runCalls separatorReader
        [.getRoot, .ensureChildrenLoaded 0, .ensureChildrenLoaded 1] Vfs.empty >>= fun t =>
          findNode separatorReader [0x61, backslash, 0x62] t >>= fun found =>
            pure (decide (t.nodes[0]?.map VfsNode.children = some [1, 2] ∧
              (infoAt t 2).map NodeInfo.relativePath = some [0x61, backslash, 0x62] ∧
              (infoAt t 2).map NodeInfo.inodeNum = some 12 ∧ found.1 = some 3 ∧
              inodeOf found = some 13))) = some true := by
      decide +kernel
    obtain ⟨t, hrun, hrest⟩ := bind_eq_pure.mp (result_eq_some.mp hruns)
    obtain ⟨found, hfind, hseen⟩ := bind_eq_pure.mp hrest
    obtain ⟨hnodes, hpath, hinfo, hid, hinode⟩ := of_decide_eq_true (pure_injective hseen)
    obtain ⟨n, hn, hchildren⟩ := Option.map_eq_some_iff.mp hnodes
    obtain ⟨k, hk, hkinode⟩ := Option.map_eq_some_iff.mp hinfo
    rw [hk, Option.map_some, Option.some_inj] at hpath
    refine ⟨t, hrun, n, k, found, hn, ?_, hk, hkinode, ?_, hid, hinode⟩
    · rw [hchildren]
      decide
    · rw [hpath]
      exact hfind

end Linux2Win.NodePlaces
