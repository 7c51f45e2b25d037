import Linux2Win.Caches
import Linux2Win.Vfs

namespace Linux2Win.NodeTree

open Bytes Directory Vfs Caches

def cacheKey (info : NodeInfo) : Name := normalizePath info.relativePath

def fresh (info : NodeInfo) : VfsNode := ⟨info, false, []⟩

section Kids

variable (g : FsReader Id)

def entryInfos (parent : NodeInfo) (entries : List DirEntryInfo) : List NodeInfo :=
  entries.filterMap fun e => Option.map (childInfo parent e) (g.statInode e.inode)

def listing (info : NodeInfo) : Option (List DirEntryInfo) :=
  if info.isDirectory then g.listDirectory info.inodeNum else none

def kids (info : NodeInfo) : List NodeInfo := entryInfos g info ((listing g info).getD [])

def rootNode : Option NodeInfo :=
  if g.isMounted then Option.map rootInfo (g.statInode 2) else none

inductive Reached : NodeInfo → Prop
  | root {info : NodeInfo} (h : rootNode g = some info) : Reached info
  | kid {parent info : NodeInfo} (reached : Reached parent) (h : info ∈ kids g parent) : Reached info

/-- The nodes other than the root. -/
def Child (k : NodeInfo) : Prop := ∃ parent, Reached g parent ∧ k ∈ kids g parent

/-- The inodes that the entries of directories lead to, from the root on. -/
inductive Linked : UInt32 → Prop
  | root : Linked 2
  | entry {d : UInt32} {entries : List DirEntryInfo} {e : DirEntryInfo} (dir : Linked d)
      (list : g.listDirectory d = some entries) (mem : e ∈ entries) : Linked e.inode

def loadWith (t : VfsTree) (dir : Nat) (info : NodeInfo) (infos : List NodeInfo) : VfsTree :=
  { nodes := t.nodes.set dir ⟨info, true, List.range' t.nodes.length infos.length⟩ ++ infos.map fresh
    root := t.root
    nodeCache := insertAll cacheKey t.nodeCache t.nodes.length infos }

def loadDir (t : VfsTree) (dir : Nat) (info : NodeInfo) : VfsTree := loadWith t dir info (kids g info)

variable {g} {info : NodeInfo}

theorem mem_kids {k : NodeInfo} (h : k ∈ kids g info) : info.isDirectory = true ∧
    ∃ entries e st, g.listDirectory info.inodeNum = some entries ∧ e ∈ entries ∧
      g.statInode e.inode = some st ∧ k = childInfo info e st := by
  rw [kids, listing] at h
  split at h
  · rename_i hdir
    refine ⟨hdir, ?_⟩
    cases hlist : (g.listDirectory info.inodeNum : Option (List DirEntryInfo)) with
    | none =>
        rw [hlist] at h
        cases h
    | some entries =>
        rw [hlist] at h
        obtain ⟨e, he, hk⟩ := List.mem_filterMap.mp h
        obtain ⟨st, hst, rfl⟩ := Option.map_eq_some_iff.mp hk
        exact ⟨entries, e, st, rfl, he, hst, rfl⟩
  · cases h

theorem rootNode_eq_some_iff : rootNode g = some info ↔
    g.isMounted = true ∧ ∃ st, g.statInode 2 = some st ∧ rootInfo st = info := by
  rw [rootNode, Option.ite_none_right_eq_some, Option.map_eq_some_iff]

theorem rootNode_inode (h : rootNode g = some info) :
    info.inodeNum = 2 ∧ info.relativePath = [] ∧ info.isDirectory = true := by
  obtain ⟨_, st, _, rfl⟩ := rootNode_eq_some_iff.mp h
  exact ⟨rfl, rfl, rfl⟩

theorem linked_of_reached (h : Reached g info) : Linked g info.inodeNum := by
  induction h with
  | root h =>
      rw [(rootNode_inode h).1]
      exact .root
  | kid _ h ih =>
      obtain ⟨_, entries, e, st, hlist, he, _, rfl⟩ := mem_kids h
      exact .entry ih hlist he

end Kids

section Loading

variable {g : FsReader Id} {t : VfsTree} {dir : Nat}

theorem modify_append {α : Type} {l r : List α} {i : Nat} (f : α → α) (h : i < l.length) :
    (l ++ r).modify i f = l.modify i f ++ r := by
  apply List.ext_getElem?
  intro j
  simp only [List.getElem?_modify, List.getElem?_append, List.length_modify]
  split
  · split
    · rfl
    · rename_i hij _
      omega
  · split <;> simp

theorem loadEntries_eq (parent : NodeInfo) (entries : List DirEntryInfo) :
    loadEntries g dir parent entries t =
      pure ((entryInfos g parent entries).foldl (fun t info => t.addChild dir info) t) := by
  induction entries generalizing t with
  | nil => rfl
  | cons e entries ih =>
      rw [loadEntries, entryInfos, List.filterMap_cons]
      change (match g.statInode e.inode with
        | none => loadEntries g dir parent entries t
        | some st => loadEntries g dir parent entries (t.addChild dir (childInfo parent e st))) = _
      cases hst : (g.statInode e.inode : Option FileStat) with
      | none => exact ih
      | some st => exact ih

theorem addChildren_eq (infos : List NodeInfo) (h : dir < t.nodes.length) :
    infos.foldl (fun t info => t.addChild dir info) t =
      { nodes := t.nodes.modify dir (fun n =>
          { n with children := n.children ++ List.range' t.nodes.length infos.length }) ++
            infos.map fresh
        root := t.root
        nodeCache := insertAll cacheKey t.nodeCache t.nodes.length infos } := by
  induction infos generalizing t with
  | nil =>
      simp only [List.foldl_nil, List.length_nil, List.range'_zero, List.map_nil, insertAll,
        List.append_nil]
      rw [show (fun n : VfsNode => { n with children := n.children }) = id from rfl, List.modify_id]
  | cons info infos ih =>
      have hlen : (t.addChild dir info).nodes.length = t.nodes.length + 1 := by
        simp [VfsTree.addChild]
      rw [List.foldl_cons, ih (by rw [hlen]; omega), hlen]
      simp only [VfsTree.addChild]
      rw [modify_append _ (by simpa using h), List.modify_modify_eq]
      simp only [List.append_assoc, List.length_cons, List.range'_succ, Function.comp_def,
        List.map_cons, insertAll, List.singleton_append]
      rfl

theorem modify_set {α : Type} {l : List α} {i : Nat} {a : α} (f : α → α) (h : l[i]? = some a) :
    l.modify i f = l.set i (f a) := by
  apply List.ext_getElem?
  intro j
  rw [List.getElem?_modify, List.getElem?_set]
  by_cases hij : i = j
  · subst hij
    obtain ⟨hlt, rfl⟩ := List.getElem?_eq_some_iff.mp h
    simp [hlt]
  · simp [hij]

theorem load_steps {n : VfsNode} (hn : t.nodes[dir]? = some n) (infos : List NodeInfo) :
    (infos.foldl (fun t info => t.addChild dir info) (t.clearChildren dir)).markLoaded dir =
      loadWith t dir n.info infos := by
  have hlen := (List.getElem?_eq_some_iff.mp hn).1
  rw [addChildren_eq _ (by simpa [VfsTree.clearChildren] using hlen)]
  simp only [VfsTree.clearChildren, VfsTree.markLoaded, loadWith, List.length_modify]
  rw [modify_append _ (by simpa using hlen), List.modify_modify_eq, List.modify_modify_eq,
    modify_set _ hn]
  rfl

theorem ensureChildrenLoaded_load {n : VfsNode} (hn : t.nodes[dir]? = some n)
    (hun : n.childrenLoaded = false) (hlist : (listing g n.info).isSome = true) :
    ensureChildrenLoaded g dir t = pure (true, loadDir g t dir n.info) := by
  obtain ⟨entries, hentries⟩ := Option.isSome_iff_exists.mp hlist
  have hkids : entryInfos g n.info entries = kids g n.info := by
    rw [kids, hentries, Option.getD_some]
  rw [listing] at hentries
  split at hentries
  · rename_i hdir
    rw [ensureChildrenLoaded, hn]
    dsimp only
    rw [if_neg (by simp [hdir]), if_neg (by simp [hun])]
    change (match g.listDirectory n.info.inodeNum with
      | none => _
      | some entries => _) = _
    rw [hentries]
    dsimp only
    rw [loadEntries_eq, hkids, pure_bind, load_steps hn]
    rfl
  · cases hentries

theorem ensureChildrenLoaded_same {n : VfsNode} (hn : t.nodes[dir]? = some n)
    (h : n.childrenLoaded = true ∨ listing g n.info = none) :
    (ensureChildrenLoaded g dir t).run.2 = t := by
  rw [ensureChildrenLoaded, hn]
  dsimp only
  split
  · rfl
  · rename_i hdir
    split
    · rfl
    · rename_i hun
      have hnone := h.resolve_left hun
      rw [listing, if_pos (by simpa using hdir)] at hnone
      change ((match g.listDirectory n.info.inodeNum with
        | none => _
        | some entries => _ : Id (Bool × VfsTree))).2 = t
      rw [hnone]
      rfl

end Loading

section Invariant

variable (g : FsReader Id)

def infoAt (t : VfsTree) (i : Nat) : Option NodeInfo := t.nodes[i]?.map VfsNode.info

structure Inv (t : VfsTree) : Prop where
  no_root : t.root = none → t = Vfs.empty
  root : ∀ r, t.root = some r → ∃ info, infoAt t r = some info ∧ rootNode g = some info
  reached : ∀ (i : Nat) (n : VfsNode), t.nodes[i]? = some n → Reached g n.info
  unloaded : ∀ (i : Nat) (n : VfsNode), t.nodes[i]? = some n → n.childrenLoaded = false →
    n.children = []
  loaded : ∀ (i : Nat) (n : VfsNode), t.nodes[i]? = some n → n.childrenLoaded = true →
    n.children.map (infoAt t) = (kids g n.info).map some
  cached : ∀ q c, q ≠ [] → t.nodeCache.lookup q = some c → ∃ (i : Nat) (n : VfsNode) (j : Nat),
    t.nodes[i]? = some n ∧ n.childrenLoaded = true ∧ n.children[j]? = some c ∧
      IsLast cacheKey (kids g n.info) q j
  absent : ∀ q, t.nodeCache.lookup q = none → ∀ (i : Nat) (n : VfsNode), t.nodes[i]? = some n →
    n.childrenLoaded = true → ∀ k ∈ kids g n.info, cacheKey k ≠ q

structure Extends (t t' : VfsTree) : Prop where
  root : ∀ r, t.root = some r → t'.root = some r
  node : ∀ (i : Nat) (n : VfsNode), t.nodes[i]? = some n → ∃ n' : VfsNode,
    t'.nodes[i]? = some n' ∧ n'.info = n.info ∧ (n.childrenLoaded = true → n' = n)

variable {g} {t t' : VfsTree} {dir : Nat}

theorem Extends.refl (t : VfsTree) : Extends t t :=
  ⟨fun _ h => h, fun _ n h => ⟨n, h, rfl, fun _ => rfl⟩⟩

theorem Extends.trans {t'' : VfsTree} (h : Extends t t') (h' : Extends t' t'') : Extends t t'' where
  root r hr := h'.root r (h.root r hr)
  node i n hn := by
    obtain ⟨n', hn', hinfo', hsame'⟩ := h.node i n hn
    obtain ⟨n'', hn'', hinfo'', hsame''⟩ := h'.node i n' hn'
    refine ⟨n'', hn'', hinfo''.trans hinfo', fun hl => ?_⟩
    obtain rfl := hsame' hl
    exact hsame'' hl

theorem Extends.infoAt (h : Extends t t') {i : Nat} {info : NodeInfo}
    (hi : NodeTree.infoAt t i = some info) : NodeTree.infoAt t' i = some info := by
  obtain ⟨n, hn, rfl⟩ := Option.map_eq_some_iff.mp hi
  obtain ⟨n', hn', hinfo, _⟩ := h.node i n hn
  rw [NodeTree.infoAt, hn', Option.map_some, hinfo]

theorem Extends.map_infoAt (h : Extends t t') {cs : List Nat} {infos : List NodeInfo}
    (hmap : cs.map (NodeTree.infoAt t) = infos.map some) :
    cs.map (NodeTree.infoAt t') = infos.map some := by
  rw [← hmap]
  refine List.map_congr_left fun c hc => ?_
  have hmem : NodeTree.infoAt t c ∈ infos.map some := by
    rw [← hmap]
    exact List.mem_map_of_mem hc
  obtain ⟨info, _, hinfo⟩ := List.mem_map.mp hmem
  rw [← hinfo, h.infoAt hinfo.symm]

theorem childNodes_zip {cs : List Nat} {infos : List NodeInfo}
    (h : cs.map (infoAt t) = infos.map some) :
    cs.filterMap (fun c => t.nodes[c]?.map fun child => (c, child.info)) = cs.zip infos := by
  induction cs generalizing infos with
  | nil => simp
  | cons c cs ih =>
      cases infos with
      | nil => cases h
      | cons info infos =>
          obtain ⟨hc, hcs⟩ := List.cons.inj h
          obtain ⟨n, hn, rfl⟩ := Option.map_eq_some_iff.mp hc
          simp [hn, ih hcs]

theorem Inv.childNodes (h : Inv g t) {n : VfsNode} (hn : t.nodes[dir]? = some n)
    (hl : n.childrenLoaded = true) :
    t.childNodes dir = n.children.zip (kids g n.info) ∧
      n.children.length = (kids g n.info).length := by
  have hmap := h.loaded dir n hn hl
  rw [VfsTree.childNodes, hn]
  exact ⟨childNodes_zip hmap, by simpa using congrArg List.length hmap⟩

theorem Inv.mem_childNodes (h : Inv g t) {c : NodeId × NodeInfo} (hc : c ∈ t.childNodes dir) :
    ∃ n, t.nodes[dir]? = some n ∧ n.childrenLoaded = true ∧ c.2 ∈ kids g n.info := by
  cases hn : t.nodes[dir]? with
  | none =>
      rw [VfsTree.childNodes, hn] at hc
      cases hc
  | some n =>
      cases hl : n.childrenLoaded with
      | true =>
          rw [(h.childNodes hn hl).1] at hc
          exact ⟨n, rfl, hl, (List.of_mem_zip hc).2⟩
      | false =>
          rw [VfsTree.childNodes, hn] at hc
          dsimp only at hc
          rw [h.unloaded dir n hn hl] at hc
          cases hc

theorem Inv.hit (h : Inv g t) {q : Name} {id : NodeId} (hq : q ≠ [])
    (hhit : t.nodeCache.lookup q = some id) : ∃ info j k, Reached g info ∧
      IsLast cacheKey (kids g info) q j ∧ (kids g info)[j]? = some k ∧ cacheKey k = q ∧
        infoAt t id = some k := by
  obtain ⟨i, n, j, hn, hl, hj, hlast⟩ := h.cached q id hq hhit
  obtain ⟨k, hk, hkey⟩ := hlast.getElem
  refine ⟨n.info, j, k, h.reached i n hn, hlast, hk, hkey, ?_⟩
  have hinfo := congrArg (fun l => l[j]?) (h.loaded i n hn hl)
  simp only [List.getElem?_map, hj, hk, Option.map_some] at hinfo
  exact Option.some.inj hinfo

theorem Inv.empty : Inv g Vfs.empty where
  no_root _ := rfl
  root := nofun
  reached := nofun
  unloaded := nofun
  loaded := nofun
  cached _ _ _ h := nomatch h
  absent _ _ := nofun

section Load

variable {info : NodeInfo} {infos : List NodeInfo}

theorem loadWith_node (hlt : dir < t.nodes.length) : (loadWith t dir info infos).nodes[dir]? =
    some ⟨info, true, List.range' t.nodes.length infos.length⟩ := by
  rw [loadWith, List.getElem?_append_left (by simpa using hlt), List.getElem?_set_self hlt]

theorem loadWith_other {i : Nat} (hlt : i < t.nodes.length) (hne : i ≠ dir) :
    (loadWith t dir info infos).nodes[i]? = t.nodes[i]? := by
  rw [loadWith, List.getElem?_append_left (by simpa using hlt), List.getElem?_set_ne hne.symm]

theorem loadWith_kid (j : Nat) : (loadWith t dir info infos).nodes[t.nodes.length + j]? =
    infos[j]?.map fresh := by
  rw [loadWith, List.getElem?_append_right (by simp)]
  simp

theorem loadWith_cases {i : Nat} {n : VfsNode} (hlt : dir < t.nodes.length)
    (h : (loadWith t dir info infos).nodes[i]? = some n) :
    (i = dir ∧ n = ⟨info, true, List.range' t.nodes.length infos.length⟩) ∨
      (i ≠ dir ∧ t.nodes[i]? = some n) ∨ ∃ k ∈ infos, n = fresh k := by
  by_cases hi : i < t.nodes.length
  · by_cases hdir : i = dir
    · subst hdir
      rw [loadWith_node hlt] at h
      exact Or.inl ⟨rfl, (Option.some.inj h).symm⟩
    · rw [loadWith_other hi hdir] at h
      exact Or.inr (Or.inl ⟨hdir, h⟩)
  · obtain ⟨j, rfl⟩ := Nat.exists_eq_add_of_le (Nat.not_lt.mp hi)
    rw [loadWith_kid, Option.map_eq_some_iff] at h
    obtain ⟨k, hk, rfl⟩ := h
    exact Or.inr (Or.inr ⟨k, List.mem_of_getElem? hk, rfl⟩)

theorem loadWith_extends {n : VfsNode} (hn : t.nodes[dir]? = some n) (hun : n.childrenLoaded = false)
    (infos : List NodeInfo) : Extends t (loadWith t dir n.info infos) where
  root _ h := h
  node i m hm := by
    have hlt := (List.getElem?_eq_some_iff.mp hn).1
    by_cases hi : i = dir
    · subst hi
      cases hn.symm.trans hm
      exact ⟨_, loadWith_node hlt, rfl, fun hl => absurd (hun.symm.trans hl) Bool.false_ne_true⟩
    · refine ⟨m, ?_, rfl, fun _ => rfl⟩
      rw [loadWith_other (List.getElem?_eq_some_iff.mp hm).1 hi]
      exact hm

theorem loadWith_children :
    (List.range' t.nodes.length infos.length).map (infoAt (loadWith t dir info infos)) =
      infos.map some := by
  apply List.ext_getElem?
  intro j
  rw [List.getElem?_map, List.getElem?_map]
  by_cases hj : j < infos.length
  · rw [List.getElem?_range' hj, Option.map_some, Nat.one_mul, infoAt, loadWith_kid,
      List.getElem?_eq_getElem hj]
    rfl
  · rw [List.getElem?_eq_none (by simpa using hj), List.getElem?_eq_none (by simpa using hj)]
    rfl

theorem loadDir_node (hlt : dir < t.nodes.length) : (loadDir g t dir info).nodes[dir]? =
    some ⟨info, true, List.range' t.nodes.length (kids g info).length⟩ :=
  loadWith_node hlt

theorem loadDir_kid (j : Nat) : (loadDir g t dir info).nodes[t.nodes.length + j]? =
    (kids g info)[j]?.map fresh :=
  loadWith_kid j

theorem loadDir_cases {i : Nat} {n m : VfsNode} (hn : t.nodes[dir]? = some n)
    (hm : (loadDir g t dir n.info).nodes[i]? = some m) :
    (i = dir ∧ m = ⟨n.info, true, List.range' t.nodes.length (kids g n.info).length⟩) ∨
      (i ≠ dir ∧ t.nodes[i]? = some m) ∨ ∃ k ∈ kids g n.info, m = fresh k :=
  loadWith_cases (List.getElem?_eq_some_iff.mp hn).1 hm

theorem loadDir_extends {n : VfsNode} (hn : t.nodes[dir]? = some n) (hun : n.childrenLoaded = false) :
    Extends t (loadDir g t dir n.info) :=
  loadWith_extends hn hun _

theorem loadDir_children :
    (List.range' t.nodes.length (kids g info).length).map (infoAt (loadDir g t dir info)) =
      (kids g info).map some :=
  loadWith_children

theorem Inv.loadDir (h : Inv g t) {n : VfsNode} (hn : t.nodes[dir]? = some n)
    (hun : n.childrenLoaded = false) : Inv g (loadDir g t dir n.info) where
  no_root hr := by
    have hlt := (List.getElem?_eq_some_iff.mp hn).1
    rw [h.no_root hr] at hlt
    cases hlt
  root r hr := by
    obtain ⟨info, hinfo, hroot⟩ := h.root r hr
    exact ⟨info, (loadDir_extends hn hun).infoAt hinfo, hroot⟩
  reached i m hm := by
    rcases loadDir_cases hn hm with ⟨rfl, rfl⟩ | ⟨_, hm⟩ | ⟨k, hk, rfl⟩
    · exact h.reached i n hn
    · exact h.reached i m hm
    · exact (h.reached dir n hn).kid hk
  unloaded i m hm hl := by
    rcases loadDir_cases hn hm with ⟨rfl, rfl⟩ | ⟨_, hm⟩ | ⟨k, hk, rfl⟩
    · cases hl
    · exact h.unloaded i m hm hl
    · rfl
  loaded i m hm hl := by
    rcases loadDir_cases hn hm with ⟨rfl, rfl⟩ | ⟨_, hm⟩ | ⟨k, hk, rfl⟩
    · exact loadDir_children
    · exact (loadDir_extends hn hun).map_infoAt (h.loaded i m hm hl)
    · cases hl
  cached q c hq hc := by
    rcases lookup_insertAll_cases t.nodeCache t.nodes.length (kids g n.info) q with
      ⟨j, hlast, hlookup⟩ | ⟨_, hlookup⟩
    · obtain rfl : t.nodes.length + j = c := Option.some.inj (hlookup.symm.trans hc)
      refine ⟨dir, _, j, loadDir_node (List.getElem?_eq_some_iff.mp hn).1, rfl, ?_, hlast⟩
      obtain ⟨k, hk, _⟩ := hlast.getElem
      rw [List.getElem?_range' (List.getElem?_eq_some_iff.mp hk).1, Nat.one_mul]
    · obtain ⟨i, m, j, hm, hl, hj, hlast⟩ := h.cached q c hq (hlookup.symm.trans hc)
      obtain ⟨m', hm', _, hsame⟩ := (loadDir_extends (g := g) hn hun).node i m hm
      obtain rfl := hsame hl
      exact ⟨i, m', j, hm', hl, hj, hlast⟩
  absent q hq i m hm hl := by
    rcases lookup_insertAll_cases t.nodeCache t.nodes.length (kids g n.info) q with
      ⟨j, _, hlookup⟩ | ⟨habsent, hlookup⟩
    · exact nomatch hlookup.symm.trans hq
    · rcases loadDir_cases hn hm with ⟨rfl, rfl⟩ | ⟨_, hm⟩ | ⟨k, hk, rfl⟩
      · exact habsent
      · exact h.absent q (hlookup.symm.trans hq) i m hm hl
      · cases hl

end Load

end Invariant

end Linux2Win.NodeTree
