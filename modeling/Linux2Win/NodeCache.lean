import Linux2Win.Programs
import Linux2Win.TreeCalls

namespace Linux2Win.NodeCache

open Bytes Devices Directory Programs Vfs Caches NodeTree NodeWalk TreeCalls

section Walks

variable (g : FsReader Id)

def HasKey (q : Name) (info : NodeInfo) : Prop := ∃ k ∈ kids g info, cacheKey k = q

def Passes (q : Name) : List Name → NodeInfo → Prop
  | [], _ => False
  | part :: parts, info => info.isDirectory = true ∧ (HasKey g q info ∨
      ∃ k, (kids g info).find? (fun k => stricmp k.name part) = some k ∧ Passes q parts k)

def EndsAt (q : Name) : List Name → NodeInfo → Prop
  | [], _ => False
  | part :: parts, info => info.isDirectory = true ∧ ∃ j k,
      IsFirst (fun k : NodeInfo => stricmp k.name part) (kids g info) j ∧ (kids g info)[j]? = some k ∧
        if parts = [] then IsLast cacheKey (kids g info) q j else EndsAt q parts k

def uncached (q : Name) : Option NodeInfo := (rootNode g).bind (walkInfo g (splitNorm [] q))

/-- The last child with a key, in any directory of the tree, has the inode that a walk
without any cache finds for the key. -/
def Consistent : Prop :=
  ∀ info, Reached g info → ∀ q j k, q ≠ [] → IsLast cacheKey (kids g info) q j →
    (kids g info)[j]? = some k → ∃ w, uncached g q = some w ∧ w.inodeNum = k.inodeNum

def Stable : Prop :=
  ∀ root q, rootNode g = some root → Passes g q (splitNorm [] q) root →
    EndsAt g q (splitNorm [] q) root

variable {g} {t t' : VfsTree} {dir : Nat} {n : VfsNode} {cs : List Nat} {q : Name}

theorem endsAt_passes {parts : List Name} {info : NodeInfo} (h : EndsAt g q parts info) :
    Passes g q parts info := by
  induction parts generalizing info with
  | nil => exact h
  | cons part parts ih =>
      obtain ⟨hdir, j, k, hfirst, hk, hend⟩ := h
      refine ⟨hdir, ?_⟩
      split at hend
      · obtain ⟨front, a, back, heq, _, ha, _⟩ := hend
        exact Or.inl ⟨a, by rw [heq]; simp, ha⟩
      · exact Or.inr ⟨k, isFirst_iff.mpr ⟨j, hfirst, hk⟩, ih hend⟩

theorem passes_key {parts : List Name} {info : NodeInfo} (h : Passes g q parts info) :
    ∃ k : NodeInfo, cacheKey k = q := by
  induction parts generalizing info with
  | nil => exact h.elim
  | cons part parts ih =>
      rcases h.2 with ⟨k, _, hk⟩ | ⟨k, _, hrest⟩
      · exact ⟨k, hk⟩
      · exact ih hrest

theorem lookup_visit_absent (hv : Visit g t dir n t' cs) (hno : ¬HasKey g q n.info) :
    t'.nodeCache.lookup q = t.nodeCache.lookup q := by
  cases hv with
  | loaded => rfl
  | unlisted => rfl
  | loads => exact lookup_insertAll_absent fun k hk he => hno ⟨k, hk, he⟩

theorem lookup_visit_last (h : Inv g t) (hn : t.nodes[dir]? = some n) (hv : Visit g t dir n t' cs)
    (hnew : n.childrenLoaded = false ∨ t.nodeCache.lookup q = none) (hkey : HasKey g q n.info) :
    n.childrenLoaded = false ∧ ∃ j, IsLast cacheKey (kids g n.info) q j ∧
      t'.nodeCache.lookup q = some (t.nodes.length + j) := by
  obtain ⟨k, hk, hkey⟩ := hkey
  cases hv with
  | loaded hl =>
      rcases hnew with hun | hmiss
      · rw [hl] at hun
        cases hun
      · exact absurd hkey (h.absent q hmiss dir n hn hl k hk)
  | unlisted hlist =>
      rw [kids_of_unlisted hlist] at hk
      cases hk
  | loads hun =>
      obtain ⟨j, hj⟩ := exists_isLast ⟨k, hk, hkey⟩
      exact ⟨hun, j, hj, lookup_insertAll_last hj⟩

theorem visit_new {j : Nat} {k : NodeInfo} {c : Nat} (hv : Visit g t dir n t' cs)
    (hun : n.childrenLoaded = false) (hk : (kids g n.info)[j]? = some k) (hc : cs[j]? = some c) :
    c = t.nodes.length + j ∧ t'.nodes[c]? = some (fresh k) ∧
      t'.nodes.length = t.nodes.length + (kids g n.info).length := by
  cases hv with
  | loaded hl =>
      rw [hl] at hun
      cases hun
  | unlisted hlist =>
      rw [kids_of_unlisted hlist] at hk
      cases hk
  | loads =>
      rw [List.getElem?_range' (List.getElem?_eq_some_iff.mp hk).1, Nat.one_mul] at hc
      cases hc
      rw [loadDir_kid, hk]
      exact ⟨rfl, rfl, by simp [loadDir, loadWith]⟩

/-- What makes a visit show all children with a key as new carries over to the next visit. -/
theorem child_unseen {j : Nat} {k : NodeInfo} {c : Nat} {m : VfsNode} (hv : Visit g t dir n t' cs)
    (hnew : n.childrenLoaded = false ∨ t.nodeCache.lookup q = none)
    (hk : (kids g n.info)[j]? = some k) (hc : cs[j]? = some c) (hm : t'.nodes[c]? = some m) :
    m.childrenLoaded = false ∨ t'.nodeCache.lookup q = none := by
  cases hl : n.childrenLoaded with
  | false =>
      obtain ⟨_, hfresh, _⟩ := visit_new hv hl hk hc
      cases hfresh.symm.trans hm
      exact Or.inl rfl
  | true =>
      rw [hl] at hnew
      have hmiss := hnew.resolve_left (by decide)
      cases hv with
      | loaded => exact Or.inr hmiss
      | unlisted => exact Or.inr hmiss
      | loads un =>
          rw [hl] at un
          cases un

theorem walk_new {part : Name} {parts : List Name} {i : NodeId} (h : Inv g t)
    (hn : t.nodes[dir]? = some n) (hun : n.childrenLoaded = false)
    (hwalk : walk g (part :: parts) dir t = pure (some i, t')) : t.nodes.length ≤ i := by
  induction parts generalizing part t dir n with
  | nil =>
      rcases walk_cases h hn part [] with ⟨_, hstop⟩ | ⟨_, t₁, cs, hv, ⟨_, hstop⟩ |
        ⟨j, k, c, _, hk, hc, _, hgo⟩⟩
      · cases hstop.symm.trans hwalk
      · cases hstop.symm.trans hwalk
      · cases hgo.symm.trans hwalk
        rw [(visit_new hv hun hk hc).1]
        exact Nat.le_add_right _ _
  | cons part' parts ih =>
      rcases walk_cases h hn part (part' :: parts) with ⟨_, hstop⟩ | ⟨_, t₁, cs, hv, ⟨_, hstop⟩ |
        ⟨j, k, c, _, hk, hc, _, hgo⟩⟩
      · cases hstop.symm.trans hwalk
      · cases hstop.symm.trans hwalk
      · obtain ⟨_, hm, hlen⟩ := visit_new hv hun hk hc
        have := ih (hv.inv h hn) hm rfl (hgo.symm.trans hwalk)
        omega

theorem passes_cons {part : Name} {parts : List Name} {info k : NodeInfo}
    (hdir : info.isDirectory = true)
    (hfind : (kids g info).find? (fun k => stricmp k.name part) = some k) :
    Passes g q (part :: parts) info ↔ HasKey g q info ∨ Passes g q parts k := by
  constructor
  · rintro ⟨_, hkey | ⟨k', hk', hrest⟩⟩
    · exact Or.inl hkey
    · cases hfind.symm.trans hk'
      exact Or.inr hrest
  · rintro (hkey | hrest)
    · exact ⟨hdir, Or.inl hkey⟩
    · exact ⟨hdir, Or.inr ⟨k, hfind, hrest⟩⟩

theorem endsAt_cons {part : Name} {parts : List Name} {info k : NodeInfo} {j : Nat}
    (hdir : info.isDirectory = true)
    (hfirst : IsFirst (fun k : NodeInfo => stricmp k.name part) (kids g info) j)
    (hk : (kids g info)[j]? = some k) : EndsAt g q (part :: parts) info ↔
      if parts = [] then IsLast cacheKey (kids g info) q j else EndsAt g q parts k := by
  constructor
  · rintro ⟨_, j', k', hfirst', hk', hend⟩
    obtain rfl := hfirst'.unique hfirst
    cases hk.symm.trans hk'
    exact hend
  · exact fun hend => ⟨hdir, j, k, hfirst, hk, hend⟩

variable (g q) in
/-- What a walk for an uncached key leaves in the cache: nothing new if it passes no
child with the key, and else the node it returns exactly when it ends at that. -/
structure Leaves (parts : List Name) (info : NodeInfo) (before after : VfsTree)
    (returned : Option NodeId) : Prop where
  keeps : ¬Passes g q parts info → after.nodeCache.lookup q = before.nodeCache.lookup q
  fills : Passes g q parts info → (after.nodeCache.lookup q).isSome = true
  returns : Passes g q parts info → (after.nodeCache.lookup q = returned ↔ EndsAt g q parts info)

section Step

variable {part : Name} {parts : List Name}

theorem leaves_stop (h : Inv g t) (hn : t.nodes[dir]? = some n) (hdir : n.info.isDirectory = true)
    (hv : Visit g t dir n t' cs) (hnew : n.childrenLoaded = false ∨ t.nodeCache.lookup q = none)
    (hnone : (kids g n.info).find? (fun k => stricmp k.name part) = none) :
    Leaves g q (part :: parts) n.info t t' none := by
  have hkey : Passes g q (part :: parts) n.info → HasKey g q n.info := by
    rintro ⟨_, hkey | ⟨k, hk, _⟩⟩
    · exact hkey
    · exact nomatch hnone.symm.trans hk
  have hend : ¬EndsAt g q (part :: parts) n.info := by
    rintro ⟨_, j, k, hfirst, hk, _⟩
    exact nomatch hnone.symm.trans (isFirst_iff.mpr ⟨j, hfirst, hk⟩)
  refine ⟨fun hno => lookup_visit_absent hv fun hkey => hno ⟨hdir, Or.inl hkey⟩, fun hp => ?_,
    fun hp => iff_of_false ?_ hend⟩
  all_goals obtain ⟨_, l, _, hlookup⟩ := lookup_visit_last h hn hv hnew (hkey hp)
  · rw [hlookup]
    rfl
  · rw [hlookup]
    nofun

variable {t₁ : VfsTree} {j : Nat} {k : NodeInfo} {r : Option NodeId}

theorem leaves_later (hdir : n.info.isDirectory = true)
    (hfirst : IsFirst (fun k : NodeInfo => stricmp k.name part) (kids g n.info) j)
    (hk : (kids g n.info)[j]? = some k) (hlater : Passes g q parts k)
    (hrest : Leaves g q parts k t₁ t' r) : Leaves g q (part :: parts) n.info t t' r := by
  have hne : parts ≠ [] := by
    rintro rfl
    exact hlater
  have hpass : Passes g q (part :: parts) n.info :=
    (passes_cons hdir (isFirst_iff.mpr ⟨j, hfirst, hk⟩)).mpr (Or.inr hlater)
  refine ⟨fun hno => absurd hpass hno, fun _ => hrest.fills hlater, fun _ => ?_⟩
  rw [hrest.returns hlater, endsAt_cons hdir hfirst hk, if_neg hne]

theorem leaves_here {c : Nat} (h : Inv g t) (hn : t.nodes[dir]? = some n)
    (hdir : n.info.isDirectory = true) (hv : Visit g t dir n t₁ cs)
    (hnew : n.childrenLoaded = false ∨ t.nodeCache.lookup q = none)
    (hfirst : IsFirst (fun k : NodeInfo => stricmp k.name part) (kids g n.info) j)
    (hk : (kids g n.info)[j]? = some k) (hc : cs[j]? = some c) (hlater : ¬Passes g q parts k)
    (hkeep : t'.nodeCache.lookup q = t₁.nodeCache.lookup q)
    (hwalk : walk g parts c t₁ = pure (r, t')) : Leaves g q (part :: parts) n.info t t' r := by
  have hkey : Passes g q (part :: parts) n.info ↔ HasKey g q n.info := by
    rw [passes_cons hdir (isFirst_iff.mpr ⟨j, hfirst, hk⟩), or_iff_left hlater]
  refine ⟨fun hno => ?_, fun hp => ?_, fun hp => ?_⟩
  · rw [hkeep]
    exact lookup_visit_absent hv fun hkey' => hno (hkey.mpr hkey')
  · obtain ⟨_, l, _, hlookup⟩ := lookup_visit_last h hn hv hnew (hkey.mp hp)
    rw [hkeep, hlookup]
    rfl
  · obtain ⟨hun, l, hlast, hlookup⟩ := lookup_visit_last h hn hv hnew (hkey.mp hp)
    obtain ⟨rfl, hfresh, hlen⟩ := visit_new hv hun hk hc
    rw [hkeep, hlookup, endsAt_cons hdir hfirst hk]
    cases parts with
    | nil =>
        cases hwalk
        rw [if_pos rfl]
        constructor
        · intro heq
          obtain rfl : l = j := by simpa using heq
          exact hlast
        · exact fun hend => by rw [hlast.unique hend]
    | cons part' parts =>
        -- a node further down is newer than the children made here
        rw [if_neg (List.cons_ne_nil _ _)]
        refine iff_of_false ?_ fun hend => hlater (endsAt_passes hend)
        rintro rfl
        have hl : l < (kids g n.info).length := by
          obtain ⟨_, hget, _⟩ := hlast.getElem
          exact (List.getElem?_eq_some_iff.mp hget).1
        have := walk_new (hv.inv h hn) hfresh rfl hwalk
        omega

end Step

theorem walk_leaves {parts : List Name} {r : Option NodeId} (h : Inv g t)
    (hn : t.nodes[dir]? = some n) (hnew : n.childrenLoaded = false ∨ t.nodeCache.lookup q = none)
    (hwalk : walk g parts dir t = pure (r, t')) : Leaves g q parts n.info t t' r := by
  induction parts generalizing t dir n with
  | nil =>
      cases hwalk
      exact ⟨fun _ => rfl, False.elim, False.elim⟩
  | cons part parts ih =>
      rcases walk_cases h hn part parts with ⟨hfile, hstop⟩ | ⟨hdir, t₁, cs, hv, ⟨hnone, hstop⟩ |
        ⟨j, k, c, hfirst, hk, hc, hfind, hgo⟩⟩
      · cases hstop.symm.trans hwalk
        have hno : ¬Passes g q (part :: parts) n.info := fun hp =>
          Bool.false_ne_true (hfile.symm.trans hp.1)
        exact ⟨fun _ => rfl, fun hp => absurd hp hno, fun hp => absurd hp hno⟩
      · cases hstop.symm.trans hwalk
        exact leaves_stop h hn hdir hv hnew hnone
      · obtain ⟨m, hm, rfl⟩ := hv.child h hn hk hc
        have hrest := hgo.symm.trans hwalk
        have hleaves := ih (hv.inv h hn) hm (child_unseen hv hnew hk hc hm) hrest
        by_cases hlater : Passes g q parts m.info
        · exact leaves_later hdir hfirst hk hlater hleaves
        · exact leaves_here h hn hdir hv hnew hfirst hk hc hlater (hleaves.keeps hlater) hrest

end Walks

def inodeOf (found : Option NodeId × VfsTree) : Option UInt32 :=
  (found.1.bind (infoAt found.2)).map NodeInfo.inodeNum

/-- Any two histories lead to the same inode, and a call made twice in a row returns
the same node. -/
structure Transparent {m : Type → Type} [Monad m] (fs : FsReader m) : Prop where
  histories : ∀ calls calls' path t t' found found', runCalls fs calls Vfs.empty = pure t →
    runCalls fs calls' Vfs.empty = pure t' → findNode fs path t = pure found →
      findNode fs path t' = pure found' → inodeOf found = inodeOf found'
  repeated : ∀ calls path t found found', runCalls fs calls Vfs.empty = pure t →
    findNode fs path t = pure found → findNode fs path found.2 = pure found' → found'.1 = found.1

section Answers

variable {g : FsReader Id} {t t' : VfsTree} {q : Name}

theorem bind_of_map {α β : Type} {f : α → Option β} {r : Option α} {s : Option β}
    (h : r.map f = s.map some) : r.bind f = s := by
  cases r with
  | none =>
      cases s with
      | none => rfl
      | some b => cases h
  | some a =>
      cases s with
      | none => cases h
      | some b => exact Option.some.inj h

theorem root_info (h : Inv g t') (hnone : t'.root = none → rootNode g = none) :
    t'.root.map (infoAt t') = (rootNode g).map some := by
  cases hr : t'.root with
  | none =>
      rw [hnone hr]
      rfl
  | some r =>
      obtain ⟨info, hinfo, hroot⟩ := h.root r hr
      rw [hroot, Option.map_some, Option.map_some, hinfo]

theorem findNode_uncached (h : Inv g t) {path : Name} {found : Option NodeId × VfsTree}
    (hmiss : normalizePath path = [] ∨ t.nodeCache.lookup (normalizePath path) = none)
    (hfind : findNode g path t = pure found) :
    found.1.map (infoAt found.2) = (uncached g (normalizePath path)).map some := by
  rcases findNode_found h path with ⟨hq, heq⟩ | ⟨hq, id, hhit, heq⟩ | ⟨hq, _, hroot, heq⟩ |
    ⟨hq, _, t₁, hinv, _, r, n, _, hn, hinfo, _, _, heq⟩
  · obtain ⟨t₁, hget, hinv, _, _, hnone, _⟩ := getRoot_spec h
    cases (heq.trans hget).symm.trans hfind
    rw [root_info hinv fun hr => (hnone hr).2, uncached, hq]
    cases rootNode g <;> rfl
  · exact nomatch (hmiss.resolve_left hq).symm.trans hhit
  · cases heq.symm.trans hfind
    rw [uncached, hroot]
    rfl
  · obtain ⟨r', t₂, hwalk, _, _, hr⟩ := walk_spec (splitNorm [] (normalizePath path)) hinv hn
    cases (heq.trans hwalk).symm.trans hfind
    rw [uncached, hinfo]
    exact hr

theorem findNode_miss (h : Inv g t) {path : Name} {found : Option NodeId × VfsTree}
    (hmiss : normalizePath path = [] ∨ t.nodeCache.lookup (normalizePath path) = none)
    (hfind : findNode g path t = pure found) :
    found.1.bind (infoAt found.2) = uncached g (normalizePath path) :=
  bind_of_map (findNode_uncached h hmiss hfind)

theorem findNode_cached {m : Type → Type} [Monad m] {fs : FsReader m} {path : Name} {id : NodeId}
    (hq : normalizePath path ≠ []) (hhit : t.nodeCache.lookup (normalizePath path) = some id) :
    findNode fs path t = pure (some id, t) := by
  rw [findNode]
  dsimp only
  rw [if_neg (by simpa using hq), hhit]

theorem findNode_hit {path : Name} {found : Option NodeId × VfsTree} {id : NodeId}
    (hq : normalizePath path ≠ []) (hhit : t.nodeCache.lookup (normalizePath path) = some id)
    (hfind : findNode g path t = pure found) : found = (some id, t) :=
  hfind.symm.trans (findNode_cached hq hhit)

theorem inodeOf_find (hc : Consistent g) (h : Inv g t) {path : Name} {found : Option NodeId × VfsTree}
    (hfind : findNode g path t = pure found) :
    inodeOf found = (uncached g (normalizePath path)).map NodeInfo.inodeNum := by
  by_cases hmiss : normalizePath path = [] ∨ t.nodeCache.lookup (normalizePath path) = none
  · rw [inodeOf, findNode_miss h hmiss hfind]
  · obtain ⟨hq, hhit⟩ := not_or.mp hmiss
    obtain ⟨id, hid⟩ := Option.ne_none_iff_exists'.mp hhit
    obtain rfl := findNode_hit hq hid hfind
    obtain ⟨info, j, k, hreached, hlast, hk, _, hinfo⟩ := h.hit hq hid
    obtain ⟨w, hw, hinode⟩ := hc info hreached _ j k hq hlast hk
    rw [hw, inodeOf]
    change ((infoAt t id).map _) = _
    rw [hinfo, Option.map_some, Option.map_some, hinode]

section Backed

variable {m : Type → Type} [Monad m] [LawfulMonad m] {fs : FsReader m}

theorem runCalls_append (calls : List TreeCall) (c : TreeCall) (h : runCalls fs calls t = pure t') :
    runCalls fs (calls ++ [c]) t = c.perform fs t' := by
  rw [runCalls, List.foldlM_append]
  change (runCalls fs calls t >>= fun t' => List.foldlM _ t' [c]) = _
  rw [h, pure_bind, List.foldlM_cons]
  exact bind_pure _

theorem ensure_kids (hb : Backs fs g) {dir : Nat} {n : VfsNode} {k : NodeInfo}
    (hn : t.nodes[dir]? = some n) (hun : n.childrenLoaded = false) (hk : k ∈ kids g n.info) :
    (TreeCall.ensureChildrenLoaded dir).perform fs t = pure (loadDir g t dir n.info) := by
  have hlist : (listing g n.info).isSome = true := by
    rw [Option.isSome_iff_ne_none]
    intro hnone
    rw [kids_of_unlisted hnone] at hk
    cases hk
  rw [TreeCall.perform, ensureChildrenLoaded_backed hb hn (Or.inr hlist),
    ensureChildrenLoaded_load hn hun hlist, map_pure]
  rfl

theorem reached_by_calls (hb : Backs fs g) {info : NodeInfo} (h : Reached g info) :
    ∃ calls t, ∃ (dir : Nat) (n : VfsNode), runCalls fs calls Vfs.empty = pure t ∧ Inv g t ∧
      t.nodes[dir]? = some n ∧ n.info = info ∧ n.childrenLoaded = false := by
  induction h with
  | root hroot =>
      obtain ⟨st, rfl, hinv, hget⟩ := getRoot_first hroot
      refine ⟨[.getRoot], Vfs.empty.addRoot st, 0, fresh (rootInfo st), ?_, hinv, rfl, rfl, rfl⟩
      rw [runCalls, List.foldlM_cons, TreeCall.perform, getRoot_backed hb hget, map_pure, pure_bind]
      rfl
  | kid _ hk ih =>
      obtain ⟨calls, t, dir, n, hrun, hinv, hn, rfl, hun⟩ := ih
      obtain ⟨j, hj⟩ := List.mem_iff_getElem?.mp hk
      refine ⟨calls ++ [.ensureChildrenLoaded dir], _, t.nodes.length + j, fresh _,
        (runCalls_append calls _ hrun).trans (ensure_kids hb hn hun hk), hinv.loadDir hn hun, ?_, rfl, rfl⟩
      rw [loadDir_kid, hj]
      rfl

end Backed

theorem findNode_root (h : Inv g t) {root : NodeInfo} (hroot : rootNode g = some root) (path : Name)
    (hq : normalizePath path ≠ []) (hmiss : t.nodeCache.lookup (normalizePath path) = none) :
    ∃ t' r n, Inv g t' ∧ t'.nodes[r]? = some n ∧ n.info = root ∧ t'.root = some r ∧
      t'.nodeCache.lookup (normalizePath path) = none ∧ (t.root.isSome = true → t' = t) ∧
      findNode g path t = walk g (splitNorm [] (normalizePath path)) r t' := by
  rcases findNode_found h path with ⟨hq', _⟩ | ⟨_, id, hhit, _⟩ | ⟨_, _, hnone, _⟩ |
    ⟨_, _, t₁, hinv, _, r, n, hr, hn, hinfo, hmiss', hsame, heq⟩
  · exact absurd hq' hq
  · exact nomatch hmiss.symm.trans hhit
  · exact nomatch hroot.symm.trans hnone
  · exact ⟨t₁, r, n, hinv, hn, Option.some.inj (hinfo.symm.trans hroot), hr, hmiss', hsame, heq⟩

theorem consistent_of_transparent (h : Transparent g) : Consistent g := by
  intro info hreached q j k hq hlast hk
  obtain ⟨calls, t, dir, n, hrun, hinv, hn, rfl, hun⟩ := reached_by_calls (.self g) hreached
  have hkey : normalizePath k.relativePath = q := by
    obtain ⟨k', hk', hkey⟩ := hlast.getElem
    cases hk.symm.trans hk'
    exact hkey
  -- the directory is loaded last, so the cache holds its child
  have hload := (runCalls_append calls _ hrun).trans (ensure_kids (.self g) hn hun (List.mem_of_getElem? hk))
  have hhit : (loadDir g t dir n.info).nodeCache.lookup q = some (t.nodes.length + j) :=
    lookup_insertAll_last hlast
  obtain ⟨found, tf, hfind, _⟩ := findNode_inv (hinv.loadDir hn hun) k.relativePath
  obtain ⟨found', tf', hfind', _⟩ := findNode_inv (g := g) Inv.empty k.relativePath
  have hsame := h.histories _ [] _ _ _ _ _ hload rfl hfind hfind'
  cases findNode_hit (by rwa [hkey]) (by rw [hkey]; exact hhit) hfind
  have hmiss := findNode_miss Inv.empty (Or.inr rfl) hfind'
  rw [inodeOf, inodeOf, hmiss, hkey] at hsame
  change ((infoAt (loadDir g t dir n.info) (t.nodes.length + j)).map _) = _ at hsame
  rw [infoAt, loadDir_kid, hk] at hsame
  obtain ⟨w, hw, hinode⟩ := Option.map_eq_some_iff.mp hsame.symm
  exact ⟨w, hw, hinode⟩

theorem stable_of_transparent (h : Transparent g) : Stable g := by
  intro root q hroot hpass
  have hq : q ≠ [] := by
    rintro rfl
    exact hpass
  obtain ⟨k, rfl⟩ := passes_key hpass
  obtain ⟨t, r, n, hinv, hn, rfl, _, hmiss, _, heq⟩ :=
    findNode_root Inv.empty hroot k.relativePath hq rfl
  obtain ⟨found, t', hwalk, hinv', _⟩ := walk_spec (splitNorm [] (cacheKey k)) hinv hn
  have hleaves := walk_leaves hinv hn (Or.inr hmiss) hwalk
  obtain ⟨id, hid⟩ := Option.isSome_iff_exists.mp (hleaves.fills hpass)
  obtain ⟨found', t'', hfind', _⟩ := findNode_inv hinv' k.relativePath
  have hsame := h.repeated [] _ _ _ _ rfl (heq.trans hwalk) hfind'
  cases findNode_hit hq hid hfind'
  exact (hleaves.returns hpass).mp (hid.trans hsame)

theorem getRoot_again (h : Inv g t) {r r' : Option NodeId} {t'' : VfsTree}
    (hget : getRoot g t = pure (r, t')) (hget' : getRoot g t' = pure (r', t'')) : r' = r := by
  obtain ⟨t₁, hrun, hinv, _, _, hnone, _⟩ := getRoot_spec h
  cases hrun.symm.trans hget
  obtain ⟨t₂, hrun', hinv', _, _, _, hsame⟩ := getRoot_spec hinv
  cases hrun'.symm.trans hget'
  cases hr : t'.root with
  | some r => rw [hsame (by rw [hr]; rfl), hr]
  | none =>
      cases hr' : t''.root with
      | none => rfl
      | some r =>
          obtain ⟨info, _, hroot⟩ := hinv'.root r hr'
          exact nomatch (hnone hr).2.symm.trans hroot

theorem walk_repeated (hs : Stable g) (h : Inv g t) {root : NodeInfo} (hroot : rootNode g = some root)
    {path : Name} (hq : normalizePath path ≠ [])
    (hmiss : t.nodeCache.lookup (normalizePath path) = none) {found found' : Option NodeId × VfsTree}
    (hfind : findNode g path t = pure found) (hfind' : findNode g path found.2 = pure found') :
    found'.1 = found.1 := by
  obtain ⟨t₁, r, n, hinv, hn, rfl, hr, hmiss₁, _, heq⟩ := findNode_root h hroot path hq hmiss
  obtain ⟨r', t', hwalk, hinv', hext, _⟩ := walk_spec (splitNorm [] (normalizePath path)) hinv hn
  cases (heq.trans hwalk).symm.trans hfind
  have hleaves := walk_leaves hinv hn (Or.inr hmiss₁) hwalk
  by_cases hpass : Passes g (normalizePath path) (splitNorm [] (normalizePath path)) n.info
  · -- the first walk has filled the cache, with the node it returned
    obtain ⟨id, hid⟩ := Option.isSome_iff_exists.mp (hleaves.fills hpass)
    cases findNode_hit hq hid hfind'
    exact hid.symm.trans ((hleaves.returns hpass).mpr (hs n.info _ hroot hpass))
  · have hmiss' := (hleaves.keeps hpass).trans hmiss₁
    have hr' := hext.root r hr
    obtain ⟨t₂, r₂, n₂, _, _, _, hr₂, _, hsame, heq'⟩ := findNode_root hinv' hroot path hq hmiss'
    obtain rfl := hsame (by rw [hr']; rfl)
    cases hr₂.symm.trans hr'
    cases (heq'.trans (walk_again hinv hn hwalk)).symm.trans hfind'
    rfl

theorem repeated_of_stable (hs : Stable g) (h : Inv g t) {path : Name}
    {found found' : Option NodeId × VfsTree} (hfind : findNode g path t = pure found)
    (hfind' : findNode g path found.2 = pure found') : found'.1 = found.1 := by
  rcases findNode_found h path with ⟨hq, heq⟩ | ⟨hq, id, hhit, heq⟩ | ⟨_, _, _, heq⟩ |
    ⟨hq, hmiss, _, _, _, _, n, _, _, hroot, _, _, _⟩
  · have hroot : ∀ t, findNode g path t = getRoot g t := fun t => by rw [findNode, hq]; rfl
    exact getRoot_again h ((hroot t).symm.trans hfind) ((hroot _).symm.trans hfind')
  · cases findNode_hit hq hhit hfind
    cases findNode_hit hq hhit hfind'
    rfl
  · cases heq.symm.trans hfind
    cases heq.symm.trans hfind'
    rfl
  · exact walk_repeated hs h hroot hq hmiss hfind hfind'

theorem transparent_iff : Transparent g ↔ Consistent g ∧ Stable g := by
  constructor
  · exact fun h => ⟨consistent_of_transparent h, stable_of_transparent h⟩
  · rintro ⟨hc, hs⟩
    constructor
    · intro calls calls' path t t' found found' hrun hrun' hfind hfind'
      rw [inodeOf_find hc (inv_of_run hrun) hfind, inodeOf_find hc (inv_of_run hrun') hfind']
    · intro calls path t found found' hrun hfind hfind'
      exact repeated_of_stable hs (inv_of_run hrun) hfind hfind'

theorem transparent_served {fs : FsReader (ExceptT Fault Id)} (h : Serves fs g) :
    Transparent fs ↔ Transparent g := by
  have hrun : ∀ {calls t}, runCalls fs calls Vfs.empty = pure t ↔ runCalls g calls Vfs.empty = pure t := by
    intro calls t
    rw [runCalls_served h Inv.empty]
    exact pure_inj
  have hfind : ∀ {path t found}, Inv g t →
      (findNode fs path t = pure found ↔ findNode g path t = pure found) := by
    intro path t found ht
    rw [findNode_served h ht]
    exact pure_inj
  constructor
  · rintro ⟨hh, hr⟩
    constructor
    · intro calls calls' path t t' found found' h₁ h₂ h₃ h₄
      exact hh calls calls' path t t' found found' (hrun.mpr h₁) (hrun.mpr h₂)
        ((hfind (inv_of_run h₁)).mpr h₃) ((hfind (inv_of_run h₂)).mpr h₄)
    · intro calls path t found found' h₁ h₂ h₃
      exact hr calls path t found found' (hrun.mpr h₁) ((hfind (inv_of_run h₁)).mpr h₂)
        ((hfind (inv_of_find (inv_of_run h₁) h₂)).mpr h₃)
  · rintro ⟨hh, hr⟩
    constructor
    · intro calls calls' path t t' found found' h₁ h₂ h₃ h₄
      have h₁' := hrun.mp h₁
      have h₂' := hrun.mp h₂
      exact hh calls calls' path t t' found found' h₁' h₂' ((hfind (inv_of_run h₁')).mp h₃)
        ((hfind (inv_of_run h₂')).mp h₄)
    · intro calls path t found found' h₁ h₂ h₃
      have h₁' := hrun.mp h₁
      have h₂' := (hfind (inv_of_run h₁')).mp h₂
      exact hr calls path t found found' h₁' h₂' ((hfind (inv_of_find (inv_of_run h₁') h₂')).mp h₃)

end Answers

/-- Over any filesystem whose reader answers, the cache changes no answer exactly when
the last child of each key is the node that walks for the key find. -/
theorem cache_transparent_iff (disk : Disk) (w : BlockDevice) (rd : Reader.Ext4Reader) (fuel : Nat)
    (g : FsReader Id) (h : Serves (ext4 (disk.device w) rd fuel) g) :
    Transparent (ext4 (disk.device w) rd fuel) ↔ Consistent g ∧ Stable g :=
  (transparent_served h).trans transparent_iff

theorem cache_transparent_iff_case :
    Transparent caseReader ↔ Consistent (answers caseReader) ∧ Stable (answers caseReader) :=
  cache_transparent_iff caseDisk Reader.wholeDevice (Reader.plainReader 16) 2 (answers caseReader)
    caseReader_serves

/-- Asked for foo, a new tree returns the node of Foo, and then that of foo. -/
theorem second_lookup_differs : Serves caseReader (answers caseReader) ∧ ¬Transparent caseReader := by
  refine ⟨caseReader_serves, fun h => ?_⟩
  have hruns : Programs.result (findNode caseReader [0x66, 0x6F, 0x6F] Vfs.empty >>= fun found =>
      findNode caseReader [0x66, 0x6F, 0x6F] found.2 >>= fun found' => pure (found.1, found'.1)) =
        some (some 1, some 2) := by
    decide +kernel
  obtain ⟨found, hfind, hrest⟩ := bind_eq_pure.mp (result_eq_some.mp hruns)
  obtain ⟨found', hfind', hboth⟩ := bind_eq_pure.mp hrest
  have hsame := h.repeated [] _ _ _ _ rfl hfind hfind'
  obtain ⟨hfirst, hsecond⟩ := Prod.mk.inj (pure_injective hboth)
  rw [hfirst, hsecond] at hsame
  cases hsame

end Linux2Win.NodeCache
