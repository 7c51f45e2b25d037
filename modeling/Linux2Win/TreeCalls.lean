import Linux2Win.NodeWalk
import Linux2Win.Programs

namespace Linux2Win.TreeCalls

open Bytes Devices Reader Directory Programs Vfs Caches NodeTree NodeWalk

/-- A call on a tree. A pointer that leads to no node is a null pointer. -/
inductive TreeCall
  | getRoot
  | findNode (relativePath : Name)
  | ensureChildrenLoaded (parent : NodeId)

def TreeCall.perform {m : Type → Type} [Monad m] (fs : FsReader m) (t : VfsTree) :
    TreeCall → m VfsTree
  | .getRoot => Prod.snd <$> Vfs.getRoot fs t
  | .findNode relativePath => Prod.snd <$> Vfs.findNode fs relativePath t
  | .ensureChildrenLoaded parent => Prod.snd <$> Vfs.ensureChildrenLoaded fs parent t

def runCalls {m : Type → Type} [Monad m] (fs : FsReader m) (calls : List TreeCall) (t : VfsTree) :
    m VfsTree :=
  calls.foldlM (TreeCall.perform fs) t

section Specs

variable {g : FsReader Id} {t : VfsTree}

theorem inv_addRoot {st : FileStat} (hm : g.isMounted = true) (hst : g.statInode 2 = some st) :
    Inv g (Vfs.empty.addRoot st) := by
  have hroot : rootNode g = some (rootInfo st) := rootNode_eq_some_iff.mpr ⟨hm, st, hst, rfl⟩
  have hnode : ∀ (i : Nat) (n : VfsNode), (Vfs.empty.addRoot st).nodes[i]? = some n →
      n = fresh (rootInfo st) := fun i n hn => List.mem_singleton.mp (List.mem_of_getElem? hn)
  refine ⟨?_, ?_, ?_, ?_, ?_, ?_, ?_⟩
  · rintro ⟨⟩
  · rintro _ ⟨⟩
    exact ⟨rootInfo st, rfl, hroot⟩
  · intro i n hn
    rw [hnode i n hn]
    exact .root hroot
  · intro i n hn _
    rw [hnode i n hn]
    rfl
  · intro i n hn hl
    rw [hnode i n hn] at hl
    cases hl
  · intro q c hq hc
    rw [VfsTree.addRoot, AList.lookup_insert_ne hq] at hc
    cases hc
  · intro q _ i n hn hl
    rw [hnode i n hn] at hl
    cases hl

theorem getRoot_first {info : NodeInfo} (hroot : rootNode g = some info) :
    ∃ st, info = rootInfo st ∧ Inv g (Vfs.empty.addRoot st) ∧
      Vfs.getRoot g Vfs.empty = pure (some 0, Vfs.empty.addRoot st) := by
  obtain ⟨hm, st, hst, rfl⟩ := rootNode_eq_some_iff.mp hroot
  refine ⟨st, rfl, inv_addRoot hm hst, ?_⟩
  rw [Vfs.getRoot, hm, hst]
  rfl

theorem extends_empty (t : VfsTree) : Extends Vfs.empty t := by
  constructor
  · rintro r ⟨⟩
  · rintro i n ⟨⟩

theorem getRoot_spec (h : Inv g t) : ∃ t', Vfs.getRoot g t = pure (t'.root, t') ∧ Inv g t' ∧
    Extends t t' ∧ (∀ q, q ≠ [] → t'.nodeCache.lookup q = t.nodeCache.lookup q) ∧
    (t'.root = none → t' = t ∧ rootNode g = none) ∧ (t.root.isSome = true → t' = t) := by
  cases hr : t.root with
  | some r =>
      refine ⟨t, ?_, h, .refl t, fun _ _ => rfl, fun hn => ?_, fun _ => rfl⟩
      · rw [Vfs.getRoot, hr]
        rfl
      · rw [hr] at hn
        cases hn
  | none =>
      have hempty := h.no_root hr
      subst hempty
      have hnone : rootNode g = none → Vfs.getRoot g Vfs.empty = pure (none, Vfs.empty) := by
        intro hroot
        rw [rootNode] at hroot
        rw [Vfs.getRoot]
        split
        · rename_i hm
          rw [if_pos (by simpa [Vfs.empty] using hm), Option.map_eq_none_iff] at hroot
          rw [hroot]
          rfl
        · rfl
      cases hroot : rootNode g with
      | none =>
          exact ⟨Vfs.empty, hnone hroot, h, .refl _, fun _ _ => rfl, fun _ => ⟨rfl, rfl⟩, fun _ => rfl⟩
      | some info =>
          obtain ⟨st, _, hinv, hget⟩ := getRoot_first hroot
          refine ⟨Vfs.empty.addRoot st, hget, hinv, extends_empty _, fun q hq => ?_, ?_, ?_⟩
          · rw [VfsTree.addRoot, AList.lookup_insert_ne hq]
          · rintro ⟨⟩
          · rintro ⟨⟩

inductive Found (g : FsReader Id) (t : VfsTree) (path : Name) : Prop
  | root (h : normalizePath path = []) (eq : Vfs.findNode g path t = Vfs.getRoot g t)
  | hit (h : normalizePath path ≠ []) (id : NodeId)
      (hit : t.nodeCache.lookup (normalizePath path) = some id)
      (eq : Vfs.findNode g path t = pure (some id, t))
  | rootless (h : normalizePath path ≠ []) (miss : t.nodeCache.lookup (normalizePath path) = none)
      (hroot : rootNode g = none) (eq : Vfs.findNode g path t = pure (none, t))
  | walk (h : normalizePath path ≠ []) (miss : t.nodeCache.lookup (normalizePath path) = none)
      (t' : VfsTree) (inv : Inv g t') (mono : Extends t t') (r : NodeId) (n : VfsNode)
      (hroot : t'.root = some r) (hn : t'.nodes[r]? = some n) (info : rootNode g = some n.info)
      (miss' : t'.nodeCache.lookup (normalizePath path) = none)
      (same : t.root.isSome = true → t' = t)
      (eq : Vfs.findNode g path t = Vfs.walk g (splitNorm [] (normalizePath path)) r t')

theorem findNode_found (h : Inv g t) (path : Name) : Found g t path := by
  by_cases hq : normalizePath path = []
  · refine .root hq ?_
    rw [Vfs.findNode, hq]
    rfl
  · have hne : ¬(normalizePath path).isEmpty = true := by simpa using hq
    cases hc : t.nodeCache.lookup (normalizePath path) with
    | some id =>
        refine .hit hq id hc ?_
        rw [Vfs.findNode]
        dsimp only
        rw [if_neg hne, hc]
    | none =>
        obtain ⟨t', hget, hinv, hext, hcache, hnone, hsame⟩ := getRoot_spec h
        have heq : Vfs.findNode g path t = t'.root.elim (pure (none, t')) fun r =>
            Vfs.walk g (splitNorm [] (normalizePath path)) r t' := by
          rw [Vfs.findNode]
          dsimp only
          rw [if_neg hne, hc]
          dsimp only
          rw [hget]
          dsimp only [bind, pure]
          cases t'.root with
          | none => rfl
          | some r => rfl
        cases hr : t'.root with
        | none =>
            obtain ⟨rfl, hroot⟩ := hnone hr
            exact .rootless hq hc hroot (by rw [heq, hr, Option.elim_none])
        | some r =>
            obtain ⟨info, hinfo, hroot⟩ := hinv.root r hr
            obtain ⟨n, hn, rfl⟩ := Option.map_eq_some_iff.mp hinfo
            exact .walk hq hc t' hinv hext r n hr hn hroot ((hcache _ hq).trans hc) hsame
              (by rw [heq, hr, Option.elim_some])

theorem findNode_inv (h : Inv g t) (path : Name) :
    ∃ r t', Vfs.findNode g path t = pure (r, t') ∧ Inv g t' ∧ Extends t t' := by
  obtain ⟨t₁, hget, hinv, hext, _⟩ := getRoot_spec h
  rcases findNode_found h path with ⟨_, heq⟩ | ⟨_, id, _, heq⟩ | ⟨_, _, _, heq⟩ |
    ⟨_, _, t', hinv', hext', r, n, _, hn, _, _, _, heq⟩
  · exact ⟨_, t₁, heq.trans hget, hinv, hext⟩
  · exact ⟨_, t, heq, h, .refl t⟩
  · exact ⟨_, t, heq, h, .refl t⟩
  · obtain ⟨found, t'', hwalk, hinv'', hext'', _⟩ :=
      walk_spec (splitNorm [] (normalizePath path)) hinv' hn
    exact ⟨found, t'', heq.trans hwalk, hinv'', hext'.trans hext''⟩

theorem perform_inv (h : Inv g t) (c : TreeCall) :
    ∃ t', c.perform g t = pure t' ∧ Inv g t' ∧ Extends t t' := by
  cases c with
  | getRoot =>
      obtain ⟨t', hget, hinv, hext, _⟩ := getRoot_spec h
      exact ⟨t', by rw [TreeCall.perform, hget]; rfl, hinv, hext⟩
  | findNode path =>
      obtain ⟨r, t', hfind, hinv, hext⟩ := findNode_inv h path
      exact ⟨t', by rw [TreeCall.perform, hfind]; rfl, hinv, hext⟩
  | ensureChildrenLoaded parent =>
      cases hn : t.nodes[parent]? with
      | none => exact ⟨t, by rw [TreeCall.perform, Vfs.ensureChildrenLoaded, hn]; rfl, h, .refl t⟩
      | some n =>
          obtain ⟨t', cs, hensure, hv⟩ := visit (g := g) hn
          exact ⟨t', hensure, hv.inv h hn, hv.mono hn⟩

theorem runCalls_inv (h : Inv g t) (calls : List TreeCall) :
    ∃ t', runCalls g calls t = pure t' ∧ Inv g t' := by
  induction calls generalizing t with
  | nil => exact ⟨t, rfl, h⟩
  | cons c calls ih =>
      obtain ⟨t₁, hstep, hinv, _⟩ := perform_inv h c
      obtain ⟨t', hrest, hinv'⟩ := ih hinv
      exact ⟨t', by rw [runCalls, List.foldlM_cons, hstep]; exact hrest, hinv'⟩

theorem inv_of_run {calls : List TreeCall} (hrun : runCalls g calls Vfs.empty = pure t) : Inv g t := by
  obtain ⟨_, hrun', hinv⟩ := runCalls_inv (g := g) Inv.empty calls
  cases hrun'.symm.trans hrun
  exact hinv

theorem inv_of_find (h : Inv g t) {path : Name} {found : Option NodeId × VfsTree}
    (hfind : Vfs.findNode g path t = pure found) : Inv g found.2 := by
  obtain ⟨_, _, hfind', hinv, _⟩ := findNode_inv h path
  cases hfind'.symm.trans hfind
  exact hinv

end Specs

section Served

variable {m : Type → Type} [Monad m]

/-- Every request to the reader for an inode that entries lead to returns, with the
answer that `g` has for it. -/
structure Serves (fs : FsReader m) (g : FsReader Id) : Prop where
  isMounted : fs.isMounted = g.isMounted
  stat : ∀ i, Linked g i → fs.statInode i = pure (g.statInode i)
  list : ∀ i, Linked g i → fs.listDirectory i = pure (g.listDirectory i)

variable [LawfulMonad m] {fs : FsReader m} {g : FsReader Id} {t : VfsTree}

theorem getRoot_served (h : Serves fs g) (t : VfsTree) :
    Vfs.getRoot fs t = pure (Vfs.getRoot g t).run := by
  rw [Vfs.getRoot, Vfs.getRoot, h.isMounted, h.stat 2 .root, pure_bind]
  generalize g.statInode 2 = st
  split
  · cases (st : Option FileStat) with
    | none => rfl
    | some st => rfl
  · rfl

theorem loadEntries_served (parent : NodeId) (info : NodeInfo) {entries : List DirEntryInfo}
    (h : ∀ e ∈ entries, fs.statInode e.inode = pure (g.statInode e.inode)) (t : VfsTree) :
    loadEntries fs parent info entries t = pure (loadEntries g parent info entries t).run := by
  induction entries generalizing t with
  | nil => rfl
  | cons e entries ih =>
      rw [List.forall_mem_cons] at h
      rw [loadEntries, loadEntries, h.1, pure_bind]
      generalize g.statInode e.inode = st
      cases (st : Option FileStat) with
      | none => exact ih h.2 t
      | some st => exact ih h.2 _

theorem ensureChildrenLoaded_served (h : Serves fs g) (hinv : Inv g t) (parent : NodeId) :
    Vfs.ensureChildrenLoaded fs parent t = pure (Vfs.ensureChildrenLoaded g parent t).run := by
  rw [Vfs.ensureChildrenLoaded, Vfs.ensureChildrenLoaded]
  cases hn : t.nodes[parent]? with
  | none => rfl
  | some node =>
      have hdir := linked_of_reached (hinv.reached parent node hn)
      dsimp only
      split
      · rfl
      · split
        · rfl
        · rw [h.list node.info.inodeNum hdir, pure_bind]
          have hstat : ∀ entries, g.listDirectory node.info.inodeNum = some entries →
              ∀ e ∈ entries, fs.statInode e.inode = pure (g.statInode e.inode) :=
            fun _ hlist e he => h.stat e.inode (.entry hdir hlist he)
          generalize g.listDirectory node.info.inodeNum = entries at hstat
          cases (entries : Option (List DirEntryInfo)) with
          | none => rfl
          | some entries =>
              dsimp only
              rw [loadEntries_served parent node.info (hstat entries rfl), pure_bind]
              rfl

theorem walk_served (h : Serves fs g) (hinv : Inv g t) (parts : List Name) (current : NodeId) :
    walk fs parts current t = pure (walk g parts current t).run := by
  induction parts generalizing current t with
  | nil => rfl
  | cons part parts ih =>
      rw [walk, walk]
      cases hn : t.nodes[current]? with
      | none => rfl
      | some node =>
          dsimp only
          split
          · rfl
          · rw [ensureChildrenLoaded_served h hinv, pure_bind]
            obtain ⟨t', cs, hensure, hv⟩ := visit (g := g) hn
            have hinv' := hv.inv hinv hn
            generalize Vfs.ensureChildrenLoaded g current t = r at hensure
            obtain ⟨_, t₁⟩ := (r : Bool × VfsTree)
            obtain rfl : t₁ = t' := hensure
            dsimp only [Id.run, bind]
            cases (t₁.childNodes current).find? fun c => stricmp c.2.name part with
            | none => rfl
            | some next => exact ih hinv' next.1

theorem findNode_served (h : Serves fs g) (hinv : Inv g t) (relativePath : Name) :
    Vfs.findNode fs relativePath t = pure (Vfs.findNode g relativePath t).run := by
  rw [Vfs.findNode, Vfs.findNode]
  dsimp only
  split
  · exact getRoot_served h t
  · split
    · rfl
    · obtain ⟨t', hget, hinv', _⟩ := getRoot_spec hinv
      rw [getRoot_served h, pure_bind, hget]
      cases hr : t'.root with
      | none => rfl
      | some r => exact walk_served h hinv' _ r

theorem perform_served (h : Serves fs g) (hinv : Inv g t) (c : TreeCall) :
    c.perform fs t = pure (c.perform g t).run := by
  cases c with
  | getRoot => rw [TreeCall.perform, getRoot_served h, map_pure]; rfl
  | findNode path => rw [TreeCall.perform, findNode_served h hinv, map_pure]; rfl
  | ensureChildrenLoaded parent =>
      rw [TreeCall.perform, ensureChildrenLoaded_served h hinv, map_pure]
      rfl

theorem runCalls_served (h : Serves fs g) (hinv : Inv g t) (calls : List TreeCall) :
    runCalls fs calls t = pure (runCalls g calls t).run := by
  induction calls generalizing t with
  | nil => rfl
  | cons c calls ih =>
      obtain ⟨t', hstep, hinv', _⟩ := perform_inv hinv c
      rw [runCalls, runCalls, List.foldlM_cons, List.foldlM_cons, perform_served h hinv, pure_bind, hstep]
      exact ih hinv'

end Served

section Backed

variable {m : Type → Type} [Monad m]

/-- What `g` shows is what the reader answers. Where `g` shows nothing the reader can do
anything. -/
structure Backs (fs : FsReader m) (g : FsReader Id) : Prop where
  isMounted : fs.isMounted = g.isMounted
  root : ∀ st, g.statInode 2 = some st → fs.statInode 2 = pure (some st)
  list : ∀ d entries, g.listDirectory d = some entries → fs.listDirectory d = pure (some entries) ∧
    ∀ e ∈ entries, fs.statInode e.inode = pure (g.statInode e.inode)

theorem Backs.self (g : FsReader Id) : Backs g g where
  isMounted := rfl
  root _ h := h
  list _ _ h := ⟨h, fun _ _ => rfl⟩

variable [LawfulMonad m] {fs : FsReader m} {g : FsReader Id} {t t' : VfsTree}

theorem getRoot_backed (h : Backs fs g) {r : NodeId} (hroot : Vfs.getRoot g t = pure (some r, t')) :
    Vfs.getRoot fs t = pure (some r, t') := by
  rw [Vfs.getRoot] at hroot ⊢
  rw [h.isMounted]
  split
  · rename_i hnew
    rw [if_pos hnew] at hroot
    cases hst : (g.statInode 2 : Option FileStat) with
    | none =>
        change ((match g.statInode 2 with
          | none => _
          | some rootStat => _ : Id (Option NodeId × VfsTree))) = _ at hroot
        rw [hst] at hroot
        have hnone := congrArg Prod.fst hroot
        simp only [Bool.and_eq_true, Option.isNone_iff_eq_none] at hnew
        exact nomatch hnew.1.symm.trans hnone
    | some st =>
        rw [h.root st hst, pure_bind]
        change ((match g.statInode 2 with
          | none => _
          | some rootStat => _ : Id (Option NodeId × VfsTree))) = _ at hroot
        rw [hst] at hroot
        exact congrArg pure hroot
  · rename_i hold
    rw [if_neg hold] at hroot
    exact congrArg pure hroot

theorem ensureChildrenLoaded_backed (h : Backs fs g) {dir : NodeId} {n : VfsNode}
    (hn : t.nodes[dir]? = some n) (hlist : n.childrenLoaded = true ∨ (listing g n.info).isSome = true) :
    Vfs.ensureChildrenLoaded fs dir t = pure (Vfs.ensureChildrenLoaded g dir t).run := by
  rw [Vfs.ensureChildrenLoaded, Vfs.ensureChildrenLoaded, hn]
  dsimp only
  split
  · rfl
  · rename_i hdir
    split
    · rfl
    · rename_i hun
      obtain ⟨entries, hentries⟩ := Option.isSome_iff_exists.mp (hlist.resolve_left hun)
      rw [listing, if_pos (by simpa using hdir)] at hentries
      obtain ⟨hfs, hstat⟩ := h.list _ entries hentries
      rw [hfs, pure_bind]
      dsimp only
      rw [loadEntries_served dir n.info hstat, pure_bind]
      have hg : g.listDirectory n.info.inodeNum = (pure (some entries) : Id _) := hentries
      rw [hg, pure_bind]
      rfl

theorem walk_backed (h : Backs fs g) (hinv : Inv g t) {parts : List Name} {current id : NodeId}
    (hwalk : walk g parts current t = pure (some id, t')) : walk fs parts current t = pure (some id, t') := by
  induction parts generalizing current t with
  | nil => exact congrArg pure hwalk
  | cons part parts ih =>
      cases hn : t.nodes[current]? with
      | none =>
          rw [walk, hn] at hwalk
          cases hwalk
      | some n =>
          cases hdir : n.info.isDirectory with
          | false => cases (walk_file hn hdir part parts).symm.trans hwalk
          | true =>
              obtain ⟨t₁, cs, hensure, hv⟩ := visit (g := g) hn
              have hchildren := hv.childNodes hinv hn
              have hinv₁ := hv.inv hinv hn
              rw [walk_dir hn hdir hensure] at hwalk
              cases hfind : (t₁.childNodes current).find? fun c => stricmp c.2.name part with
              | none =>
                  rw [hfind] at hwalk
                  cases hwalk
              | some next =>
                  rw [hfind] at hwalk
                  have hloads : n.childrenLoaded = true ∨ (listing g n.info).isSome = true := by
                    cases hv with
                    | loaded hl => exact Or.inl hl
                    | unlisted =>
                        rw [hchildren, List.zip_nil_left] at hfind
                        cases hfind
                    | loads _ hlist => exact Or.inr hlist
                  rw [walk, hn]
                  dsimp only
                  rw [if_neg (by simp [hdir]), ensureChildrenLoaded_backed h hn hloads, pure_bind]
                  rw [hensure, hfind]
                  exact ih hinv₁ hwalk

theorem findNode_backed (h : Backs fs g) (hinv : Inv g t) {path : Name} {id : NodeId}
    (hfind : Vfs.findNode g path t = pure (some id, t')) :
    Vfs.findNode fs path t = pure (some id, t') := by
  rw [Vfs.findNode] at hfind ⊢
  dsimp only at hfind ⊢
  split
  · rename_i hroot
    rw [if_pos hroot] at hfind
    exact getRoot_backed h hfind
  · rename_i hne
    rw [if_neg hne] at hfind
    cases hc : t.nodeCache.lookup (normalizePath path) with
    | some c =>
        rw [hc] at hfind
        exact congrArg pure hfind
    | none =>
        rw [hc] at hfind
        obtain ⟨t₁, hget, hinv₁, _⟩ := getRoot_spec hinv
        dsimp only at hfind ⊢
        rw [hget] at hfind
        cases hr : t₁.root with
        | none =>
            rw [hr] at hfind
            cases hfind
        | some r =>
            rw [hr] at hfind hget
            rw [getRoot_backed h hget, pure_bind]
            exact walk_backed h hinv₁ hfind

end Backed

/-- The answers of a reader whose requests return. -/
def answers (fs : FsReader (ExceptT Fault Id)) : FsReader Id where
  isMounted := fs.isMounted
  statInode i := (result (fs.statInode i)).join
  listDirectory i := (result (fs.listDirectory i)).join

/-- A root directory with the empty files Foo and foo, in the inodes 11 and 12. -/
def caseDisk : Disk :=
  .ofPieces 16384
    [(2056, le32Bytes 5), (5248, le16Bytes 0x41ED ++ [0, 0] ++ le32Bytes 1024), (5288, le32Bytes 8),
      (6400, le16Bytes 0x8180), (6528, le16Bytes 0x8180),
      (8192, le32Bytes 11 ++ le16Bytes 12 ++ [3, 1, 0x46, 0x6F, 0x6F, 0]),
      (8204, le32Bytes 12 ++ le16Bytes 1012 ++ [3, 1, 0x66, 0x6F, 0x6F, 0])]

def caseReader : FsReader (ExceptT Fault Id) := ext4 (caseDisk.device wholeDevice) (plainReader 16) 2

def caseEntries : List DirEntryInfo :=
  [⟨11, [0x46, 0x6F, 0x6F], 1, false, false⟩, ⟨12, [0x66, 0x6F, 0x6F], 1, false, false⟩]

theorem answers_list {fs : FsReader (ExceptT Fault Id)} {d : UInt32} {list : Option (List DirEntryInfo)}
    (h : result (fs.listDirectory d) = some list) :
    fs.listDirectory d = pure list ∧ (answers fs).listDirectory d = list :=
  ⟨result_eq_some.mp h, congrArg Option.join h⟩

theorem answers_stat {fs : FsReader (ExceptT Fault Id)} {i : UInt32}
    (h : (result (fs.statInode i)).join.isSome = true) : ∃ st,
      fs.statInode i = pure (some st) ∧ (answers fs).statInode i = some st := by
  obtain ⟨st, hst⟩ := Option.isSome_iff_exists.mp h
  exact ⟨st, result_eq_some.mp (Option.join_eq_some_iff.mp hst), hst⟩

theorem caseReader_lists : result (caseReader.listDirectory 2) = some (some caseEntries) ∧
    result (caseReader.listDirectory 11) = some none ∧
    result (caseReader.listDirectory 12) = some none := by
  decide +kernel

theorem caseReader_linked {d : UInt32} (h : Linked (answers caseReader) d) :
    d = 2 ∨ d = 11 ∨ d = 12 := by
  have h2 := (answers_list caseReader_lists.1).2
  have h11 := (answers_list caseReader_lists.2.1).2
  have h12 := (answers_list caseReader_lists.2.2).2
  induction h with
  | root => exact Or.inl rfl
  | entry _ list mem ih =>
      rcases ih with rfl | rfl | rfl
      · cases list.symm.trans h2
        rcases List.mem_cons.mp mem with rfl | mem
        · exact Or.inr (Or.inl rfl)
        · exact Or.inr (Or.inr (congrArg DirEntryInfo.inode (List.mem_singleton.mp mem)))
      · cases list.symm.trans h11
      · cases list.symm.trans h12

theorem caseReader_stats {i : UInt32} (h : Linked (answers caseReader) i) : ∃ st,
    caseReader.statInode i = pure (some st) ∧ (answers caseReader).statInode i = some st := by
  obtain ⟨h2, h11, h12⟩ : (result (caseReader.statInode 2)).join.isSome = true ∧
      (result (caseReader.statInode 11)).join.isSome = true ∧
      (result (caseReader.statInode 12)).join.isSome = true := by
    decide +kernel
  rcases caseReader_linked h with rfl | rfl | rfl
  · exact answers_stat h2
  · exact answers_stat h11
  · exact answers_stat h12

theorem caseReader_serves : Serves caseReader (answers caseReader) where
  isMounted := rfl
  stat i h := by
    obtain ⟨st, hst, hans⟩ := caseReader_stats h
    rw [hst, hans]
  list i h := by
    obtain ⟨h2, h11, h12⟩ := caseReader_lists
    rcases caseReader_linked h with rfl | rfl | rfl
    · obtain ⟨hlist, hans⟩ := answers_list h2
      rw [hlist, hans]
    · obtain ⟨hlist, hans⟩ := answers_list h11
      rw [hlist, hans]
    · obtain ⟨hlist, hans⟩ := answers_list h12
      rw [hlist, hans]

end Linux2Win.TreeCalls
