import Linux2Win.DirEnum
import Linux2Win.ListingFailures
import Linux2Win.TreeCalls

namespace Linux2Win.DirectoryLoads

open Bytes Devices Reader Directory Traces Guids Vfs DirEnum NodeTree TreeCalls ListingFailures

def Shows (k : NodeInfo) (e : DirEntryInfo) : Prop := k.name = e.name ∧ k.inodeNum = e.inode

theorem shows_of_same {infos : List NodeInfo} {entries all : List DirEntryInfo}
    (h : List.Forall₂ Shows infos entries) (h' : List.Forall₂ SameEntry entries all) :
    List.Forall₂ Shows infos all := by
  induction h generalizing all with
  | nil =>
      cases h'
      exact .nil
  | cons hshows _ ih =>
      cases h' with
      | cons hsame hrest => exact .cons ⟨hshows.1.trans hsame.1, hshows.2.trans hsame.2⟩ (ih hrest)

inductive Call
  | tree (c : TreeCall)
  | start (self : Bool) (filePathName : Option WString)

section Conditions

variable {σ : Type} (fs : FsReader (ExceptT Fault (StateM σ))) (live : UInt32 → List DirEntryInfo → Prop)

def Call.perform (t : VfsTree) : Call → ExceptT Fault (StateM σ) VfsTree
  | .tree c => c.perform fs t
  | .start self filePathName => Prod.snd <$> captureChildren fs self filePathName t

def StatsSucceed : List DirEntryInfo → σ → Prop
  | [], _ => True
  | e :: entries, s => ∀ st s', exec (fs.statInode e.inode) s = (.ok st, s') →
      st.isSome = true ∧ StatsSucceed entries s'

def Unloaded (t : VfsTree) (dir : NodeId) (n : VfsNode) : Prop :=
  t.nodes[dir]? = some n ∧ n.info.isDirectory = true ∧ n.childrenLoaded = false

/-- If the directory is listed now, then with all of its live entries, and with a stat
for each. -/
def LoadsWhole (d : UInt32) (s : σ) : Prop :=
  ∀ entries s', exec (fs.listDirectory d) s = (.ok (some entries), s') →
    ∀ all, live d all → List.Forall₂ SameEntry entries all ∧ StatsSucceed fs entries s'

inductive WalkLoads : List Name → NodeId → VfsTree → σ → NodeId → VfsTree → σ → Prop
  | here (part : Name) (parts : List Name) (current : NodeId) (t : VfsTree) (s : σ) :
      WalkLoads (part :: parts) current t s current t s
  | next {part : Name} {parts : List Name} {current dir : NodeId} {t t₁ t' : VfsTree} {s s₁ s' : σ}
      {loaded : Bool} {child : NodeId × NodeInfo}
      (ensure : exec (ensureChildrenLoaded fs current t) s = (.ok (loaded, t₁), s₁))
      (find : (t₁.childNodes current).find? (fun c => stricmp c.2.name part) = some child)
      (rest : WalkLoads parts child.1 t₁ s₁ dir t' s') : WalkLoads (part :: parts) current t s dir t' s'

/-- A path that the cache knows loads nothing. -/
inductive FindLoads (path : Name) (t : VfsTree) (s : σ) (dir : NodeId) (t' : VfsTree) (s' : σ) : Prop
  | walk {r : NodeId} {t₁ : VfsTree} {s₁ : σ} (miss : t.nodeCache.lookup (normalizePath path) = none)
      (root : exec (getRoot fs t) s = (.ok (some r, t₁), s₁))
      (loads : WalkLoads fs (splitNorm [] (normalizePath path)) r t₁ s₁ dir t' s')

def StartsAt (filePathName : Option WString) (t : VfsTree) (s : σ) (dir : NodeId) (t' : VfsTree)
    (s' : σ) : Prop :=
  exec (findNodeW fs ((filePathName.map cStr).getD []) t) s = (.ok (some dir, t'), s')

def Call.Loads (t : VfsTree) (s : σ) (dir : NodeId) (t' : VfsTree) (s' : σ) : Call → Prop
  | .tree .getRoot => False
  | .tree (.findNode path) => FindLoads fs path t s dir t' s'
  | .tree (.ensureChildrenLoaded parent) => dir = parent ∧ t' = t ∧ s' = s
  | .start self filePathName => self = true ∧
      (FindLoads fs (narrowPath ((filePathName.map cStr).getD [])) t s dir t' s' ∨
        StartsAt fs filePathName t s dir t' s')

def Call.AllLoad (clear : UInt32 → σ → Prop) (t : VfsTree) (s : σ) (c : Call) : Prop :=
  ∀ dir t' s', c.Loads fs t s dir t' s' → ∀ n, Unloaded t' dir n → clear n.info.inodeNum s'

/-- The trees and the device states that calls come to whose loads meet a condition.
Between two calls the device can come to any state. -/
inductive Run (clear : UInt32 → σ → Prop) : VfsTree → σ → Prop
  | fresh (s : σ) : Run clear Vfs.empty s
  | call {t t' : VfsTree} {s s' : σ} (h : Run clear t s) (c : Call) (loads : c.AllLoad fs clear t s)
      (exec : exec (c.perform fs t) s = (.ok t', s')) : Run clear t' s'
  | idle {t : VfsTree} {s : σ} (h : Run clear t s) (s' : σ) : Run clear t s'

structure Complete (t : VfsTree) : Prop where
  unloaded : ∀ (i : NodeId) (n : VfsNode), t.nodes[i]? = some n → n.childrenLoaded = false →
    n.children = []
  loaded : ∀ (i : NodeId) (n : VfsNode), t.nodes[i]? = some n → n.childrenLoaded = true →
    ∀ all, live n.info.inodeNum all → ∃ infos, n.children.map (infoAt t) = infos.map some ∧
      List.Forall₂ Shows infos all

end Conditions

section Loads

variable {σ : Type} {fs : FsReader (ExceptT Fault (StateM σ))} {live : UInt32 → List DirEntryInfo → Prop}
  {t t' : VfsTree} {s s' : σ} {dir : NodeId}

theorem getRoot_allLoad (clear : UInt32 → σ → Prop) : (Call.tree .getRoot).AllLoad fs clear t s :=
  fun _ _ _ h => False.elim h

theorem Complete.empty : Complete live Vfs.empty where
  unloaded _ _ h := nomatch h
  loaded _ _ h := nomatch h

theorem Complete.root (h : Complete live t) (hr : t.root = none) (st : FileStat) :
    Complete live (t.addRoot st) := by
  have hcases : ∀ (i : NodeId) (n : VfsNode), (t.addRoot st).nodes[i]? = some n →
      t.nodes[i]? = some n ∨ n = fresh (rootInfo st) := by
    intro i n hn
    rw [VfsTree.addRoot, List.getElem?_append] at hn
    split at hn
    · exact Or.inl hn
    · exact Or.inr (List.mem_singleton.mp (List.mem_of_getElem? hn))
  have hext : Extends t (t.addRoot st) := by
    refine ⟨fun r hr' => absurd (hr.symm.trans hr') (Option.some_ne_none r).symm, fun i n hn => ⟨n, ?_, rfl, fun _ => rfl⟩⟩
    rw [VfsTree.addRoot, List.getElem?_append_left (List.getElem?_eq_some_iff.mp hn).1]
    exact hn
  constructor
  · intro i n hn hun
    rcases hcases i n hn with hn | rfl
    · exact h.unloaded i n hn hun
    · rfl
  · intro i n hn hl all hall
    rcases hcases i n hn with hn | rfl
    · obtain ⟨infos, hmap, hshows⟩ := h.loaded i n hn hl all hall
      exact ⟨infos, hext.map_infoAt hmap, hshows⟩
    · cases hl

theorem Complete.load (h : Complete live t) {n : VfsNode} (hn : Unloaded t dir n) {infos : List NodeInfo}
    (hshows : ∀ all, live n.info.inodeNum all → List.Forall₂ Shows infos all) :
    Complete live (loadWith t dir n.info infos) := by
  obtain ⟨hn, _, hun⟩ := hn
  have hlt := (List.getElem?_eq_some_iff.mp hn).1
  constructor
  · intro i m hm hl
    rcases loadWith_cases hlt hm with ⟨_, rfl⟩ | ⟨_, hm⟩ | ⟨k, _, rfl⟩
    · cases hl
    · exact h.unloaded i m hm hl
    · rfl
  · intro i m hm hl all hall
    rcases loadWith_cases hlt hm with ⟨_, rfl⟩ | ⟨_, hm⟩ | ⟨k, _, rfl⟩
    · exact ⟨infos, loadWith_children, hshows all hall⟩
    · obtain ⟨infos', hmap, hshows'⟩ := h.loaded i m hm hl all hall
      exact ⟨infos', (loadWith_extends hn hun infos).map_infoAt hmap, hshows'⟩
    · cases hl

theorem loadEntries_exec {parent : NodeInfo} {entries : List DirEntryInfo}
    (hexec : exec (loadEntries fs dir parent entries t) s = (.ok t', s')) :
    ∃ infos, t' = infos.foldl (fun t info => t.addChild dir info) t ∧
      (StatsSucceed fs entries s → List.Forall₂ Shows infos entries) := by
  induction entries generalizing t s with
  | nil =>
      cases hexec
      exact ⟨[], rfl, fun _ => .nil⟩
  | cons e entries ih =>
      rw [loadEntries] at hexec
      obtain ⟨st, s₁, hst, hexec⟩ := exec_bind_ok.mp hexec
      cases st with
      | none =>
          obtain ⟨infos, htree, _⟩ := ih hexec
          exact ⟨infos, htree, fun h => absurd (h none s₁ hst).1 Bool.false_ne_true⟩
      | some st =>
          obtain ⟨infos, htree, hshows⟩ := ih hexec
          exact ⟨childInfo parent e st :: infos, htree,
            fun h => .cons ⟨rfl, rfl⟩ (hshows (h (some st) s₁ hst).2)⟩

inductive Ensured (fs : FsReader (ExceptT Fault (StateM σ))) (t : VfsTree) (dir : NodeId) (s : σ) :
    VfsTree → Prop
  | missing (h : t.nodes[dir]? = none) : Ensured fs t dir s t
  | file {n : VfsNode} (hn : t.nodes[dir]? = some n) (h : n.info.isDirectory = false) :
      Ensured fs t dir s t
  | loaded {n : VfsNode} (hn : t.nodes[dir]? = some n) (h : n.childrenLoaded = true) :
      Ensured fs t dir s t
  | unlisted {n : VfsNode} {s₁ : σ} (hn : Unloaded t dir n)
      (list : exec (fs.listDirectory n.info.inodeNum) s = (.ok none, s₁)) : Ensured fs t dir s t
  | loads {n : VfsNode} {s₁ : σ} {entries : List DirEntryInfo} {infos : List NodeInfo}
      (hn : Unloaded t dir n)
      (list : exec (fs.listDirectory n.info.inodeNum) s = (.ok (some entries), s₁))
      (shows : StatsSucceed fs entries s₁ → List.Forall₂ Shows infos entries) :
      Ensured fs t dir s (loadWith t dir n.info infos)

theorem ensured {r : Bool} (hexec : exec (ensureChildrenLoaded fs dir t) s = (.ok (r, t'), s')) :
    Ensured fs t dir s t' := by
  rw [ensureChildrenLoaded] at hexec
  cases hn : t.nodes[dir]? with
  | none =>
      rw [hn] at hexec
      cases hexec
      exact .missing hn
  | some n =>
      rw [hn] at hexec
      dsimp only at hexec
      split at hexec
      · rename_i hfile
        cases hexec
        exact .file hn (by simpa using hfile)
      · rename_i hdir
        split at hexec
        · rename_i hl
          cases hexec
          exact .loaded hn hl
        · rename_i hun
          have hunloaded : Unloaded t dir n := ⟨hn, by simpa using hdir, by simpa using hun⟩
          obtain ⟨list, s₁, hlist, hexec⟩ := exec_bind_ok.mp hexec
          cases list with
          | none =>
              cases hexec
              exact .unlisted hunloaded hlist
          | some entries =>
              obtain ⟨t₁, s₂, hload, hexec⟩ := exec_bind_ok.mp hexec
              cases hexec
              obtain ⟨infos, rfl, hshows⟩ := loadEntries_exec hload
              rw [load_steps hn]
              exact .loads hunloaded hlist hshows

theorem Complete.ensured (h : Complete live t)
    (hwhole : ∀ n, Unloaded t dir n → LoadsWhole fs live n.info.inodeNum s)
    (he : Ensured fs t dir s t') : Complete live t' := by
  cases he with
  | missing => exact h
  | file => exact h
  | loaded => exact h
  | unlisted => exact h
  | loads hn list shows =>
      refine h.load hn fun all hall => ?_
      obtain ⟨hsame, hstats⟩ := hwhole _ hn _ _ list all hall
      exact shows_of_same (shows hstats) hsame

theorem Complete.getRoot {r : Option NodeId} (h : Complete live t)
    (hexec : exec (getRoot fs t) s = (.ok (r, t'), s')) : Complete live t' := by
  rw [Vfs.getRoot] at hexec
  split at hexec
  · rename_i hroot
    obtain ⟨st, s₁, _, hexec⟩ := exec_bind_ok.mp hexec
    cases st with
    | none =>
        cases hexec
        exact h
    | some st =>
        cases hexec
        simp only [Bool.and_eq_true, Option.isNone_iff_eq_none] at hroot
        exact h.root hroot.1 st
  · cases hexec
    exact h

theorem Complete.walk {parts : List Name} {current : NodeId} {r : Option NodeId} (h : Complete live t)
    (hwhole : ∀ dir t₁ s₁, WalkLoads fs parts current t s dir t₁ s₁ → ∀ n, Unloaded t₁ dir n →
      LoadsWhole fs live n.info.inodeNum s₁)
    (hexec : exec (walk fs parts current t) s = (.ok (r, t'), s')) : Complete live t' := by
  induction parts generalizing current t s with
  | nil =>
      cases hexec
      exact h
  | cons part parts ih =>
      rw [Vfs.walk] at hexec
      cases hn : t.nodes[current]? with
      | none =>
          rw [hn] at hexec
          cases hexec
          exact h
      | some n =>
          rw [hn] at hexec
          dsimp only at hexec
          split at hexec
          · cases hexec
            exact h
          · obtain ⟨⟨loaded, t₁⟩, s₁, hensure, hexec⟩ := exec_bind_ok.mp hexec
            have hcomplete := h.ensured (hwhole current t s (.here part parts current t s))
              (DirectoryLoads.ensured hensure)
            dsimp only at hexec
            cases hfind : (t₁.childNodes current).find? fun c => stricmp c.2.name part with
            | none =>
                rw [hfind] at hexec
                cases hexec
                exact hcomplete
            | some next =>
                rw [hfind] at hexec
                exact ih hcomplete (fun dir t₂ s₂ hrest => hwhole dir t₂ s₂ (.next hensure hfind hrest))
                  hexec

theorem Complete.findNode {path : Name} {r : Option NodeId} (h : Complete live t)
    (hwhole : ∀ dir t₁ s₁, FindLoads fs path t s dir t₁ s₁ → ∀ n, Unloaded t₁ dir n →
      LoadsWhole fs live n.info.inodeNum s₁)
    (hexec : exec (findNode fs path t) s = (.ok (r, t'), s')) : Complete live t' := by
  rw [Vfs.findNode] at hexec
  dsimp only at hexec
  split at hexec
  · exact h.getRoot hexec
  · cases hc : t.nodeCache.lookup (normalizePath path) with
    | some id =>
        rw [hc] at hexec
        cases hexec
        exact h
    | none =>
        rw [hc] at hexec
        obtain ⟨⟨root, t₁⟩, s₁, hget, hexec⟩ := exec_bind_ok.mp hexec
        have hcomplete := h.getRoot hget
        cases root with
        | none =>
            cases hexec
            exact hcomplete
        | some r =>
            exact hcomplete.walk (fun dir t₂ s₂ hloads => hwhole dir t₂ s₂ (.walk hc hget hloads)) hexec

end Loads

section Starts

variable {σ : Type} {fs : FsReader (ExceptT Fault (StateM σ))} {live : UInt32 → List DirEntryInfo → Prop}
  {t t' : VfsTree} {s s' : σ} {dir : NodeId}

theorem childNodes_infos {n : VfsNode} {infos : List NodeInfo} (hn : t.nodes[dir]? = some n)
    (hmap : n.children.map (infoAt t) = infos.map some) : (t.childNodes dir).map Prod.snd = infos := by
  rw [VfsTree.childNodes, hn]
  dsimp only
  rw [childNodes_zip hmap, List.map_snd_zip (by simpa using (congrArg List.length hmap).ge)]

theorem Complete.shows (h : Complete live t) {n : VfsNode} (hn : t.nodes[dir]? = some n)
    (hl : n.childrenLoaded = true) {all : List DirEntryInfo} (hall : live n.info.inodeNum all) :
    List.Forall₂ Shows ((t.childNodes dir).map Prod.snd) all := by
  obtain ⟨infos, hmap, hshows⟩ := h.loaded dir n hn hl all hall
  rwa [childNodes_infos hn hmap]

theorem Complete.unlisted (h : Complete live t) {n : VfsNode} (hn : Unloaded t dir n) :
    t.childNodes dir = [] := by
  obtain ⟨hn, _, hun⟩ := hn
  rw [VfsTree.childNodes, hn]
  dsimp only
  rw [h.unloaded dir n hn hun]
  rfl

theorem captured_shows (h : Complete live t)
    (hwhole : ∀ n, Unloaded t dir n → LoadsWhole fs live n.info.inodeNum s)
    (hempty : ∀ n s₁, Unloaded t dir n → exec (fs.listDirectory n.info.inodeNum) s = (.ok none, s₁) →
      ∀ all, live n.info.inodeNum all → all = [])
    {n : VfsNode} (hn : t.nodes[dir]? = some n) (hdir : n.info.isDirectory = true)
    (he : Ensured fs t dir s t') : ∃ n', t'.nodes[dir]? = some n' ∧ n'.info = n.info ∧
      ∀ all, live n.info.inodeNum all → List.Forall₂ Shows ((t'.childNodes dir).map Prod.snd) all := by
  have hcomplete := h.ensured hwhole he
  cases he with
  | missing hnone => exact absurd (hn.symm.trans hnone) (by simp)
  | file hn' hfile =>
      cases hn.symm.trans hn'
      exact absurd (hfile.symm.trans hdir) Bool.false_ne_true
  | loaded hn' hl =>
      cases hn.symm.trans hn'
      exact ⟨n, hn, rfl, fun all hall => hcomplete.shows hn hl hall⟩
  | unlisted hn' list =>
      cases hn.symm.trans hn'.1
      refine ⟨n, hn, rfl, fun all hall => ?_⟩
      rw [h.unlisted hn', hempty n _ hn' list all hall]
      exact .nil
  | @loads _ _ _ infos hn' =>
      cases hn.symm.trans hn'.1
      have hnode : (loadWith t dir n.info infos).nodes[dir]? =
          some ⟨n.info, true, List.range' t.nodes.length infos.length⟩ :=
        loadWith_node (List.getElem?_eq_some_iff.mp hn).1
      exact ⟨_, hnode, rfl, fun all hall => hcomplete.shows hnode rfl hall⟩

structure Shown (fs : FsReader (ExceptT Fault (StateM σ))) (live : UInt32 → List DirEntryInfo → Prop)
    (filePathName : Option WString) (t : VfsTree) (s : σ) (t' : VfsTree) (children : List NodeInfo) :
    Prop where
  found : ∃ dir t₁ s₁ n, StartsAt fs filePathName t s dir t₁ s₁ ∧ t'.nodes[dir]? = some n ∧
    n.info.isDirectory = true ∧ ∀ all, live n.info.inodeNum all → List.Forall₂ Shows children all

variable (fs live) in
/-- A listing of the directory that the callback starts with returns false only if there is
nothing to show. -/
def StartLists (filePathName : Option WString) (t : VfsTree) (s : σ) : Prop :=
  ∀ dir t₁ s₁, StartsAt fs filePathName t s dir t₁ s₁ → ∀ n s₂, Unloaded t₁ dir n →
    exec (fs.listDirectory n.info.inodeNum) s₁ = (.ok none, s₂) →
      ∀ all, live n.info.inodeNum all → all = []

theorem capture_spec {self : Bool} {filePathName : Option WString}
    {captured : Except HResult (List NodeInfo)} (h : Complete live t)
    (hwhole : (Call.start self filePathName).AllLoad fs (LoadsWhole fs live) t s)
    (hexec : exec (captureChildren fs self filePathName t) s = (.ok (captured, t'), s')) :
    Complete live t' ∧ ((self = true → StartLists fs live filePathName t s) →
      (∃ children, captured = .ok children ∧ Shown fs live filePathName t s t' children) ∨
        ∃ hr, captured = .error hr ∧ failed hr = true) := by
  rw [captureChildren] at hexec
  split at hexec
  · cases hexec
    exact ⟨h, fun _ => Or.inr ⟨_, rfl, by decide⟩⟩
  · rename_i hself
    have hself : self = true := by simpa using hself
    obtain ⟨⟨found, t₁⟩, s₁, hfind, hexec⟩ := exec_bind_ok.mp hexec
    have hcomplete := h.findNode
      (fun dir t₂ s₂ hloads => hwhole dir t₂ s₂ ⟨hself, Or.inl hloads⟩) hfind
    dsimp only at hexec
    cases found with
    | none =>
        cases hexec
        exact ⟨hcomplete, fun _ => Or.inr ⟨_, rfl, by decide⟩⟩
    | some dir =>
        rw [Option.bind_some] at hexec
        cases hn : t₁.nodes[dir]? with
        | none =>
            rw [hn] at hexec
            cases hexec
            exact ⟨hcomplete, fun _ => Or.inr ⟨_, rfl, by decide⟩⟩
        | some n =>
            rw [hn, Option.map_some] at hexec
            dsimp only at hexec
            split at hexec
            · cases hexec
              exact ⟨hcomplete, fun _ => Or.inr ⟨_, rfl, by decide⟩⟩
            · rename_i hdir
              obtain ⟨⟨loaded, t₂⟩, s₂, hensure, hexec⟩ := exec_bind_ok.mp hexec
              cases hexec
              have hloads := hwhole dir t₁ s₁ ⟨hself, Or.inr hfind⟩
              have hdir : n.info.isDirectory = true := by simpa using hdir
              refine ⟨hcomplete.ensured hloads (ensured hensure), fun hlists => Or.inl ⟨_, rfl, ?_⟩⟩
              obtain ⟨n', hn', hinfo, hshows⟩ :=
                captured_shows hcomplete hloads (hlists hself dir t₁ s₁ hfind) hn hdir (ensured hensure)
              exact ⟨dir, t₁, s₁, n', hfind, hn', by rw [hinfo, hdir], by rw [hinfo]; exact hshows⟩

theorem Complete.call {c : Call} (h : Complete live t)
    (hwhole : c.AllLoad fs (LoadsWhole fs live) t s)
    (hexec : exec (c.perform fs t) s = (.ok t', s')) : Complete live t' := by
  have hsnd : ∀ {α : Type} {x : ExceptT Fault (StateM σ) (α × VfsTree)},
      exec (Prod.snd <$> x) s = (.ok t', s') → ∃ a, exec x s = (.ok (a, t'), s') := by
    intro α x hx
    rw [map_eq_pure_bind] at hx
    obtain ⟨⟨a, t₁⟩, s₁, hx, hpure⟩ := exec_bind_ok.mp hx
    cases hpure
    exact ⟨a, hx⟩
  cases c with
  | tree c =>
      cases c with
      | getRoot =>
          obtain ⟨r, hget⟩ := hsnd hexec
          exact h.getRoot hget
      | findNode path =>
          obtain ⟨r, hfind⟩ := hsnd hexec
          exact h.findNode hwhole hfind
      | ensureChildrenLoaded dir =>
          obtain ⟨r, hensure⟩ := hsnd hexec
          exact h.ensured (hwhole dir t s ⟨rfl, rfl, rfl⟩) (DirectoryLoads.ensured hensure)
  | start self filePathName =>
      obtain ⟨captured, hcapture⟩ := hsnd hexec
      exact (capture_spec h hwhole hcapture).1

theorem complete_of_run {clear : UInt32 → σ → Prop} (hclear : ∀ d s, clear d s → LoadsWhole fs live d s)
    (h : Run fs clear t s) : Complete live t := by
  induction h with
  | fresh => exact .empty
  | call _ c loads exec ih =>
      exact ih.call (fun dir t₁ s₁ hl n hn => hclear _ _ (loads dir t₁ s₁ hl n hn)) exec
  | idle _ _ ih => exact ih

theorem start_spec {self : Bool} {filePathName : Option WString} {id : Guid}
    {sessions sessions' : Sessions} {hr : HResult} (h : Complete live t)
    (hwhole : (Call.start self filePathName).AllLoad fs (LoadsWhole fs live) t s)
    (hlists : self = true → StartLists fs live filePathName t s)
    (hexec : exec (startDirEnumCallback fs self filePathName id t sessions) s =
      (.ok (hr, t', sessions'), s')) :
    (hr = sOk ∧ ∃ session, sessions'.lookup id = some session ∧
      Shown fs live filePathName t s t' session.matchingEntries) ∨
        failed hr = true ∧ sessions' = sessions := by
  rw [startDirEnumCallback] at hexec
  obtain ⟨⟨captured, t₁⟩, s₁, hcapture, hexec⟩ := exec_bind_ok.mp hexec
  rcases (capture_spec h hwhole hcapture).2 hlists with ⟨children, rfl, hshown⟩ | ⟨_, rfl, hfailed⟩
  · cases hexec
    exact Or.inl ⟨rfl, _, AList.lookup_insert _, hshown⟩
  · cases hexec
    exact Or.inr ⟨hfailed, rfl⟩

end Starts

section Failures

variable {disk : Disk} {w : BlockDevice} {rd : Ext4Reader} {fuel : Nat}
  {fails : Nat → UInt64 → UInt32 → Bool}

theorem stats_of_inodes {entries all : List DirEntryInfo} (h : List.Forall₂ SameEntry entries all)
    {s : Requests} (hread : InodesRead disk w rd fuel fails all s) :
    StatsSucceed (ext4 (flaky disk w fails) rd fuel) entries s := by
  induction h generalizing s with
  | nil => trivial
  | cons hsame _ ih =>
      obtain ⟨⟨inode, hinode⟩, hreads, hrest⟩ := hread
      intro st s' hexec
      rw [hsame.2] at hexec
      exact ⟨statInode_reads hinode hreads hexec, ih (hrest st s' hexec)⟩

theorem loads_whole (d : UInt32) (s : Requests) (h : LoadClear disk w rd fuel fails d s) :
    LoadsWhole (ext4 (flaky disk w fails) rd fuel) (Live disk w rd fuel) d s := by
  intro entries s' hexec all hlive
  by_cases hcut : ListingCut disk w rd fuel fails d s
  · cases listing_cut hlive hcut hexec
  · obtain ⟨hmaps, hinodes⟩ := (h all hlive).resolve_left hcut
    obtain ⟨_, heq, hsame⟩ := listing_clear hlive hcut hmaps hexec
    cases heq
    exact ⟨hsame, stats_of_inodes hsame (hinodes _ s' hexec)⟩

variable (disk w rd fuel fails) in
def StartUncut (filePathName : Option WString) (t : VfsTree) (s : Requests) : Prop :=
  ∀ dir t₁ s₁, StartsAt (ext4 (flaky disk w fails) rd fuel) filePathName t s dir t₁ s₁ →
    ∀ n, Unloaded t₁ dir n → ListingCut disk w rd fuel fails n.info.inodeNum s₁ →
      ∀ all, Live disk w rd fuel n.info.inodeNum all → all = []

theorem start_lists {self : Bool} (hself : self = true) {filePathName : Option WString} {t : VfsTree}
    {s : Requests}
    (hloads : (Call.start self filePathName).AllLoad (ext4 (flaky disk w fails) rd fuel)
      (LoadClear disk w rd fuel fails) t s) (huncut : StartUncut disk w rd fuel fails filePathName t s) :
    StartLists (ext4 (flaky disk w fails) rd fuel) (Live disk w rd fuel) filePathName t s := by
  intro dir t₁ s₁ hstart n s₂ hn hlist all hlive
  by_cases hcut : ListingCut disk w rd fuel fails n.info.inodeNum s₁
  · exact huncut dir t₁ s₁ hstart n hn hcut all hlive
  · obtain ⟨hmaps, _⟩ := (hloads dir t₁ s₁ ⟨hself, Or.inr hstart⟩ n hn all hlive).resolve_left hcut
    obtain ⟨_, heq, _⟩ := listing_clear hlive hcut hmaps hlist
    cases heq

end Failures

/-- The requests to a disk on which the eleventh one alone fails: the one for the inode
of the second entry, when the root is the first directory to be loaded. -/
def eleventh (made : Nat) (_ : UInt64) (_ : UInt32) : Bool := made == 10

def onceFailing : FsReader (ExceptT Fault (StateM Requests)) :=
  ext4 (flaky caseDisk wholeDevice eleventh) (plainReader 16) 2

def CaseLive : UInt32 → List DirEntryInfo → Prop := Live caseDisk wholeDevice (plainReader 16) 2

def CaseClear : UInt32 → Requests → Prop := LoadClear caseDisk wholeDevice (plainReader 16) 2 eleventh

end Linux2Win.DirectoryLoads
