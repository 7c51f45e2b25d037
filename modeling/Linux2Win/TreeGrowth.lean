import Linux2Win.TreeCalls

namespace Linux2Win.TreeGrowth

open Devices Directory Programs Vfs Caches NodeTree NodeWalk TreeCalls

/-- What calls can show of a filesystem: the directories whose listing returns, and with
it the stat of each entry. -/
def loadable (fs : FsReader (ExceptT Fault Id)) : FsReader Id where
  isMounted := fs.isMounted
  statInode i := (result (fs.statInode i)).join
  listDirectory d := (result (fs.listDirectory d)).join.filter fun entries =>
    entries.all fun e => (result (fs.statInode e.inode)).isSome

section Loadable

variable {fs : FsReader (ExceptT Fault Id)} {t : VfsTree}

theorem loadable_stat {i : UInt32} {st : Option FileStat} (h : fs.statInode i = pure st) :
    (loadable fs).statInode i = pure st := by
  change (result (fs.statInode i)).join = st
  rw [h]
  rfl

theorem stat_of_loadable {i : UInt32} {st : FileStat} (h : (loadable fs).statInode i = some st) :
    fs.statInode i = pure (some st) :=
  result_eq_some.mp (Option.join_eq_some_iff.mp h)

theorem loadable_unlisted {d : UInt32} (h : fs.listDirectory d = pure none) :
    (loadable fs).listDirectory d = pure none := by
  change (result (fs.listDirectory d)).join.filter _ = none
  rw [h]
  rfl

theorem loadable_list {d : UInt32} {entries : List DirEntryInfo}
    (h : fs.listDirectory d = pure (some entries))
    (hstat : ∀ e ∈ entries, (result (fs.statInode e.inode)).isSome = true) :
    (loadable fs).listDirectory d = pure (some entries) := by
  change (result (fs.listDirectory d)).join.filter _ = some entries
  rw [h]
  exact Option.filter_eq_some_iff.mpr ⟨rfl, List.all_eq_true.mpr hstat⟩

theorem list_of_loadable {d : UInt32} {entries : List DirEntryInfo}
    (h : (loadable fs).listDirectory d = some entries) : fs.listDirectory d = pure (some entries) ∧
      ∀ e ∈ entries, fs.statInode e.inode = pure ((loadable fs).statInode e.inode) := by
  obtain ⟨hlist, hall⟩ := Option.filter_eq_some_iff.mp h
  refine ⟨result_eq_some.mp (Option.join_eq_some_iff.mp hlist), fun e he => ?_⟩
  obtain ⟨st, hst⟩ := Option.isSome_iff_exists.mp (List.all_eq_true.mp hall e he)
  rw [result_eq_some.mp hst, loadable_stat (result_eq_some.mp hst)]
  rfl

theorem loadable_backs (fs : FsReader (ExceptT Fault Id)) : Backs fs (loadable fs) where
  isMounted := rfl
  root _ h := stat_of_loadable h
  list _ _ h := list_of_loadable h

theorem stats_of_load {parent : NodeId} {info : NodeInfo} {entries : List DirEntryInfo} {t' : VfsTree}
    (h : loadEntries fs parent info entries t = pure t') :
    ∀ e ∈ entries, (result (fs.statInode e.inode)).isSome = true := by
  induction entries generalizing t with
  | nil => exact nofun
  | cons e entries ih =>
      rw [loadEntries] at h
      obtain ⟨st, hst, h⟩ := bind_eq_pure.mp h
      rw [List.forall_mem_cons]
      refine ⟨by rw [hst]; rfl, ?_⟩
      cases st with
      | none => exact ih h
      | some st => exact ih h

theorem getRoot_loadable {r : Option NodeId × VfsTree} (h : Vfs.getRoot fs t = pure r) :
    Vfs.getRoot (loadable fs) t = pure r := by
  rw [Vfs.getRoot] at h ⊢
  change (if t.root.isNone && fs.isMounted then _ else _) = _
  split at h
  · rename_i hroot
    obtain ⟨st, hst, h⟩ := bind_eq_pure.mp h
    rw [if_pos hroot, loadable_stat hst, pure_bind]
    cases st with
    | none => rw [← pure_injective h]
    | some st => rw [← pure_injective h]
  · rename_i hroot
    rw [if_neg hroot, ← pure_injective h]

theorem loadEntries_loadable {parent : NodeId} {info : NodeInfo} {entries : List DirEntryInfo}
    {t' : VfsTree} (h : loadEntries fs parent info entries t = pure t') :
    loadEntries (loadable fs) parent info entries t = pure t' := by
  induction entries generalizing t with
  | nil => exact congrArg pure (pure_injective h)
  | cons e entries ih =>
      rw [loadEntries] at h ⊢
      obtain ⟨st, hst, h⟩ := bind_eq_pure.mp h
      rw [loadable_stat hst, pure_bind]
      cases st with
      | none => exact ih h
      | some st => exact ih h

theorem ensureChildrenLoaded_loadable {parent : NodeId} {r : Bool × VfsTree}
    (h : Vfs.ensureChildrenLoaded fs parent t = pure r) :
    Vfs.ensureChildrenLoaded (loadable fs) parent t = pure r := by
  rw [Vfs.ensureChildrenLoaded] at h ⊢
  cases hn : t.nodes[parent]? with
  | none =>
      rw [hn] at h
      rw [← pure_injective h]
  | some n =>
      rw [hn] at h
      dsimp only at h ⊢
      split at h
      · rename_i hfile
        rw [if_pos hfile, ← pure_injective h]
      · rename_i hdir
        rw [if_neg hdir]
        split at h
        · rename_i hl
          rw [if_pos hl, ← pure_injective h]
        · rename_i hun
          rw [if_neg hun]
          obtain ⟨list, hlist, h⟩ := bind_eq_pure.mp h
          cases list with
          | none => rw [loadable_unlisted hlist, pure_bind, ← pure_injective h]
          | some entries =>
              obtain ⟨t', hload, h⟩ := bind_eq_pure.mp h
              rw [loadable_list hlist (stats_of_load hload), pure_bind]
              dsimp only
              rw [loadEntries_loadable hload, pure_bind, ← pure_injective h]

theorem walk_loadable {parts : List Name} {current : NodeId} {r : Option NodeId × VfsTree}
    (h : walk fs parts current t = pure r) : walk (loadable fs) parts current t = pure r := by
  induction parts generalizing current t with
  | nil => exact congrArg pure (pure_injective h)
  | cons part parts ih =>
      rw [walk] at h ⊢
      cases hn : t.nodes[current]? with
      | none =>
          rw [hn] at h
          rw [← pure_injective h]
      | some n =>
          rw [hn] at h
          dsimp only at h ⊢
          split at h
          · rename_i hfile
            rw [if_pos hfile, ← pure_injective h]
          · rename_i hdir
            rw [if_neg hdir]
            obtain ⟨loaded, hload, h⟩ := bind_eq_pure.mp h
            rw [ensureChildrenLoaded_loadable hload, pure_bind]
            cases hfind : (loaded.2.childNodes current).find? fun c => stricmp c.2.name part with
            | none =>
                rw [hfind] at h
                rw [← pure_injective h]
            | some next =>
                rw [hfind] at h
                exact ih h

theorem findNode_loadable {path : Name} {r : Option NodeId × VfsTree}
    (h : Vfs.findNode fs path t = pure r) : Vfs.findNode (loadable fs) path t = pure r := by
  rw [Vfs.findNode] at h ⊢
  dsimp only at h ⊢
  split at h
  · rename_i hroot
    rw [if_pos hroot]
    exact getRoot_loadable h
  · rename_i hne
    rw [if_neg hne]
    cases hc : t.nodeCache.lookup (normalizePath path) with
    | some id =>
        rw [hc] at h
        rw [← pure_injective h]
    | none =>
        rw [hc] at h
        dsimp only at h ⊢
        obtain ⟨root, hget, h⟩ := bind_eq_pure.mp h
        rw [getRoot_loadable hget, pure_bind]
        cases hr : root.1 with
        | none =>
            rw [hr] at h
            rw [← pure_injective h]
        | some r =>
            rw [hr] at h
            exact walk_loadable h

theorem perform_loadable {c : TreeCall} {t' : VfsTree} (h : c.perform fs t = pure t') :
    c.perform (loadable fs) t = pure t' := by
  cases c with
  | getRoot =>
      rw [TreeCall.perform, map_eq_pure_bind] at h
      obtain ⟨r, hget, h⟩ := bind_eq_pure.mp h
      rw [TreeCall.perform, getRoot_loadable hget, map_pure, pure_injective h]
  | findNode path =>
      rw [TreeCall.perform, map_eq_pure_bind] at h
      obtain ⟨r, hfind, h⟩ := bind_eq_pure.mp h
      rw [TreeCall.perform, findNode_loadable hfind, map_pure, pure_injective h]
  | ensureChildrenLoaded parent =>
      rw [TreeCall.perform, map_eq_pure_bind] at h
      obtain ⟨r, hload, h⟩ := bind_eq_pure.mp h
      rw [TreeCall.perform, ensureChildrenLoaded_loadable hload, map_pure, pure_injective h]

/-- A run that returns goes as it does on what is loadable. -/
theorem runCalls_loadable {calls : List TreeCall} {t' : VfsTree} (h : runCalls fs calls t = pure t') :
    runCalls (loadable fs) calls t = pure t' := by
  induction calls generalizing t with
  | nil => exact congrArg pure (pure_injective h)
  | cons c calls ih =>
      rw [runCalls, List.foldlM_cons] at h ⊢
      obtain ⟨t₁, hstep, h⟩ := bind_eq_pure.mp h
      rw [perform_loadable hstep]
      exact ih h

end Loadable

section Growth

variable (g : FsReader Id)

inductive Grows : VfsTree → VfsTree → Prop
  | refl (t : VfsTree) : Grows t t
  | root {t : VfsTree} {st : FileStat} (h : Grows t Vfs.empty) : Grows t (Vfs.empty.addRoot st)
  | load {t t' : VfsTree} {dir : NodeId} {n : VfsNode} (h : Grows t t') (hn : t'.nodes[dir]? = some n)
      (un : n.childrenLoaded = false) : Grows t (loadDir g t' dir n.info)

variable {g} {t t' t'' : VfsTree}

theorem Grows.trans (h : Grows g t t') (h' : Grows g t' t'') : Grows g t t'' := by
  induction h' with
  | refl => exact h
  | root _ ih => exact .root ih
  | load _ hn un ih => exact .load ih hn un

theorem getRoot_grows (h : Inv g t) : Grows g t (Vfs.getRoot g t).run.2 := by
  cases hr : t.root with
  | some r =>
      rw [Vfs.getRoot, hr]
      exact .refl t
  | none =>
      obtain rfl := h.no_root hr
      cases hroot : rootNode g with
      | some info =>
          obtain ⟨st, _, _, hget⟩ := getRoot_first hroot
          rw [hget]
          exact .root (.refl _)
      | none =>
          obtain ⟨t', hget, hinv, _, _, hnone, _⟩ := getRoot_spec h
          rw [hget]
          cases hr' : t'.root with
          | none =>
              obtain ⟨rfl, _⟩ := hnone hr'
              exact .refl _
          | some r =>
              obtain ⟨_, _, hroot'⟩ := hinv.root r hr'
              cases hroot.symm.trans hroot'

theorem ensureChildrenLoaded_grows (dir : NodeId) :
    Grows g t (Vfs.ensureChildrenLoaded g dir t).run.2 := by
  cases hn : t.nodes[dir]? with
  | none =>
      rw [Vfs.ensureChildrenLoaded, hn]
      exact .refl t
  | some n =>
      obtain ⟨t', cs, hensure, hv⟩ := visit (g := g) hn
      rw [hensure]
      cases hv with
      | loaded => exact .refl t
      | unlisted => exact .refl t
      | loads un => exact .load (.refl t) hn un

theorem walk_grows (parts : List Name) (current : NodeId) :
    Grows g t (walk g parts current t).run.2 := by
  induction parts generalizing current t with
  | nil => exact .refl t
  | cons part parts ih =>
      cases hn : t.nodes[current]? with
      | none =>
          rw [walk, hn]
          exact .refl t
      | some n =>
          cases hdir : n.info.isDirectory with
          | false =>
              rw [walk_file hn hdir]
              exact .refl t
          | true =>
              have hgrows := ensureChildrenLoaded_grows (g := g) (t := t) current
              rw [walk_dir hn hdir rfl]
              split
              · exact hgrows
              · exact hgrows.trans (ih _)

theorem findNode_grows (h : Inv g t) (path : Name) : Grows g t (Vfs.findNode g path t).run.2 := by
  rw [Vfs.findNode]
  dsimp only
  split
  · exact getRoot_grows h
  · split
    · exact .refl t
    · have hgrows := getRoot_grows h
      generalize Vfs.getRoot g t = got at hgrows ⊢
      obtain ⟨root, t₁⟩ := (got : Option NodeId × VfsTree)
      cases root with
      | none => exact hgrows
      | some r => exact hgrows.trans (walk_grows _ _)

theorem perform_grows (h : Inv g t) (c : TreeCall) : Grows g t (c.perform g t).run := by
  cases c with
  | getRoot => exact getRoot_grows h
  | findNode path => exact findNode_grows h path
  | ensureChildrenLoaded parent => exact ensureChildrenLoaded_grows parent

theorem runCalls_grows (h : Inv g t) (calls : List TreeCall) : Grows g t (runCalls g calls t).run := by
  induction calls generalizing t with
  | nil => exact .refl t
  | cons c calls ih =>
      have hgrows := perform_grows h c
      obtain ⟨t', hstep, hinv, _⟩ := perform_inv h c
      rw [runCalls, List.foldlM_cons]
      rw [hstep] at hgrows ⊢
      exact hgrows.trans (ih hinv)

end Growth

end Linux2Win.TreeGrowth
