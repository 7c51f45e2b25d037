import Linux2Win.ListedPaths
import Linux2Win.NodeCache

namespace Linux2Win.Resolvers

open Bytes Devices Reader Directory Programs Joins Vfs Caches NodeTree NodeWalk TreeCalls NodeCache
open PathNames Listings ListedPaths

section Names

variable (g : FsReader Id)

/-- Names are unique in each directory and free of separators, and every stat succeeds. -/
structure Ordinary : Prop where
  unique : ∀ d, Linked g d → ∀ entries, g.listDirectory d = some entries →
    (entries.map DirEntryInfo.name).Nodup
  separatorFree : ∀ d, Linked g d → ∀ entries, g.listDirectory d = some entries →
    ∀ e ∈ entries, ∀ c ∈ e.name, isSeparator c = false
  stats : ∀ d, Linked g d → ∀ entries, g.listDirectory d = some entries →
    ∀ e ∈ entries, ∃ st, g.statInode e.inode = some st
  rootStat : ∃ st, g.statInode 2 = some st

structure Listed : Prop where
  names : ∀ d, Linked g d → ∀ entries, g.listDirectory d = some entries →
    ∀ e ∈ entries, ListedName e.name
  dirs : ∀ d, Linked g d → ∀ entries, g.listDirectory d = some entries →
    ∀ st, g.statInode d = some st → st.isDirectory = true

/-- In the directories that entries lead to, the first entry whose name is that of
an entry up to the case of its letters has the inode of that entry. -/
def Unshadowed : Prop :=
  ∀ d, Linked g d → ∀ entries, g.listDirectory d = some entries → ∀ e ∈ entries, ∀ e',
    entries.find? (fun x => stricmp x.name e.name) = some e' → e'.inode = e.inode

inductive Named : List Name → NodeInfo → Prop
  | root {info : NodeInfo} (h : rootNode g = some info) : Named [] info
  | kid {names : List Name} {parent k : NodeInfo} (named : Named names parent) (h : k ∈ kids g parent) :
      Named (names ++ [k.name]) k

variable {g} {info : NodeInfo} {entries : List DirEntryInfo}

theorem reached_named (h : Reached g info) : ∃ names, Named g names info := by
  induction h with
  | root h => exact ⟨[], .root h⟩
  | kid _ h ih =>
      obtain ⟨names, hnames⟩ := ih
      exact ⟨_, .kid hnames h⟩

theorem Named.reached {names : List Name} (h : Named g names info) : Reached g info := by
  induction h with
  | root h => exact .root h
  | kid _ h ih => exact .kid ih h

theorem stricmp_refl (name : Name) : stricmp name name = true := beq_self_eq_true _

theorem find_exact (hu : (entries.map DirEntryInfo.name).Nodup) {e : DirEntryInfo} (he : e ∈ entries) :
    entries.find? (·.name == e.name) = some e := by
  induction entries with
  | nil => cases he
  | cons x entries ih =>
      rw [List.map_cons, List.nodup_cons] at hu
      rcases List.mem_cons.mp he with rfl | he
      · rw [List.find?_cons, beq_self_eq_true]
      · rw [List.find?_cons_of_neg, ih hu.2 he]
        intro hx
        rw [beq_iff_eq] at hx
        exact hu.1 (hx ▸ List.mem_map_of_mem he)

theorem lookupParts_cons {d : UInt32} {part : Name} {e : DirEntryInfo}
    (hlist : g.listDirectory d = some entries) (hfind : entries.find? (·.name == part) = some e)
    (parts : List Name) :
    lookupParts g.listDirectory d (part :: parts) = lookupParts g.listDirectory e.inode parts := by
  rw [lookupParts, hlist]
  dsimp only [bind]
  rw [hfind]

theorem lookupParts_some {d i : UInt32} {part : Name} {parts : List Name}
    (h : lookupParts g.listDirectory d (part :: parts) = some i) :
    ∃ entries e, g.listDirectory d = some entries ∧ entries.find? (·.name == part) = some e ∧
      lookupParts g.listDirectory e.inode parts = some i := by
  rw [lookupParts] at h
  cases hlist : (g.listDirectory d : Option (List DirEntryInfo)) with
  | none =>
      rw [hlist] at h
      cases h
  | some entries =>
      rw [hlist] at h
      dsimp only [bind] at h
      cases hfind : entries.find? (·.name == part) with
      | none =>
          rw [hfind] at h
          cases h
      | some e =>
          rw [hfind] at h
          exact ⟨entries, e, rfl, hfind, h⟩

theorem lookupParts_append {d i : UInt32} {names : List Name}
    (h : lookupParts g.listDirectory d names = some i) (parts : List Name) :
    lookupParts g.listDirectory d (names ++ parts) = lookupParts g.listDirectory i parts := by
  rw [lookupParts_then g.listDirectory, h]
  rfl

theorem plain_of_listed (ho : Ordinary g) (hl : Listed g) {d : UInt32} (hd : Linked g d)
    (hlist : g.listDirectory d = some entries) {e : DirEntryInfo} (he : e ∈ entries) :
    PlainName e.name :=
  ⟨(hl.names d hd entries hlist e he).1, ho.separatorFree d hd entries hlist e he⟩

theorem named_spec (ho : Ordinary g) (hl : Listed g) {names : List Name} (h : Named g names info) :
    info.relativePath = joinNames names ∧ (∀ name ∈ names, PlainName name) ∧
      Linked g info.inodeNum ∧ lookupParts g.listDirectory 2 names = some info.inodeNum := by
  induction h with
  | root h =>
      obtain ⟨hinode, hpath, _⟩ := rootNode_inode h
      rw [hinode, hpath]
      exact ⟨rfl, nofun, .root, rfl⟩
  | @kid names parent k named h ih =>
      obtain ⟨hpath, hplain, hlinked, hlookup⟩ := ih
      obtain ⟨_, entries, e, st, hlist, he, _, rfl⟩ := mem_kids h
      refine ⟨childInfo_path hpath (fun name hname => (hplain name hname).1) e st,
        fun name hname => ?_, .entry hlinked hlist he, ?_⟩
      · rcases List.mem_append.mp hname with hname | hname
        · exact hplain name hname
        · rw [List.mem_singleton.mp hname]
          exact plain_of_listed ho hl hlinked hlist he
      · change lookupParts g.listDirectory 2 (names ++ [e.name]) = some e.inode
        rw [lookupParts_append hlookup,
          lookupParts_cons hlist (find_exact (ho.unique _ hlinked _ hlist) he)]
        rfl

end Names

section Walks

variable {g : FsReader Id} {info : NodeInfo} {entries : List DirEntryInfo}

theorem find_entryInfos (info : NodeInfo) (part : Name) (hst : ∀ e ∈ entries, ∃ st, g.statInode e.inode = some st) :
    ((entryInfos g info entries).find? fun k => stricmp k.name part).map NodeInfo.inodeNum =
      (entries.find? fun e => stricmp e.name part).map DirEntryInfo.inode := by
  induction entries with
  | nil => rfl
  | cons e entries ih =>
      obtain ⟨st, he⟩ := hst e List.mem_cons_self
      have hinfos : entryInfos g info (e :: entries) =
          childInfo info e st :: entryInfos g info entries := by
        rw [entryInfos, List.filterMap_cons, he]
        rfl
      have hname : (childInfo info e st).name = e.name := rfl
      rw [hinfos, List.find?_cons, List.find?_cons, hname]
      cases stricmp e.name part with
      | true => rfl
      | false => exact ih fun x hx => hst x (List.mem_cons_of_mem _ hx)

theorem kids_of_list (hdir : info.isDirectory = true)
    (hlist : g.listDirectory info.inodeNum = some entries) :
    kids g info = entryInfos g info entries := by
  rw [kids, listing, if_pos hdir, hlist, Option.getD_some]

def Typed (g : FsReader Id) (info : NodeInfo) : Prop :=
  ∀ entries, g.listDirectory info.inodeNum = some entries → info.isDirectory = true

theorem typed_kid (hl : Listed g) (hlinked : Linked g info.inodeNum) {k : NodeInfo}
    (hk : k ∈ kids g info) : Typed g k := by
  obtain ⟨_, _, e, st, hdir, he, hst, rfl⟩ := mem_kids hk
  exact fun entries hlist => hl.dirs e.inode (.entry hlinked hdir he) entries hlist st hst

theorem exact_walk (ho : Ordinary g) (hl : Listed g) (hu : Unshadowed g) {parts : List Name}
    {i : UInt32} (hlinked : Linked g info.inodeNum) (htyped : Typed g info)
    (h : lookupParts g.listDirectory info.inodeNum parts = some i) :
    ∃ w, walkInfo g parts info = some w ∧ w.inodeNum = i := by
  induction parts generalizing info with
  | nil =>
      cases h
      exact ⟨info, rfl, rfl⟩
  | cons part parts ih =>
      obtain ⟨entries, e, hlist, hfind, hrest⟩ := lookupParts_some h
      have he := List.mem_of_find?_eq_some hfind
      obtain rfl : e.name = part := by simpa using List.find?_some hfind
      have hkids := kids_of_list (htyped entries hlist) hlist
      have hmap := find_entryInfos info e.name (ho.stats _ hlinked entries hlist)
      cases hmatch : entries.find? fun x => stricmp x.name e.name with
      | none => exact absurd (stricmp_refl e.name) (List.find?_eq_none.mp hmatch e he)
      | some e' =>
          have hinode := hu _ hlinked entries hlist e he e' hmatch
          rw [hmatch, ← hkids] at hmap
          obtain ⟨k, hk, hkinode⟩ := Option.map_eq_some_iff.mp hmap
          have hki : k.inodeNum = e.inode := hkinode.trans hinode
          rw [walkInfo, if_pos (htyped entries hlist), hk]
          rw [← hki] at hrest
          exact ih (by rw [hki]; exact .entry hlinked hlist he)
            (typed_kid hl hlinked (List.mem_of_find?_eq_some hk)) hrest

theorem walkInfo_append {parts : List Name} {w : NodeInfo} (h : walkInfo g parts info = some w)
    (more : List Name) : walkInfo g (parts ++ more) info = walkInfo g more w := by
  induction parts generalizing info with
  | nil =>
      cases h
      rfl
  | cons part parts ih =>
      obtain ⟨hdir, k, hfind, hrest⟩ := walkInfo_cons_iff.mp h
      rw [List.cons_append, walkInfo, if_pos hdir, hfind]
      exact ih hrest

end Walks

section Agreement

/-- Whatever calls came before, `find_node` returns a node with the inode that
`lookup_path` finds. -/
def Agree (dev : Device Id) (rd : Ext4Reader) (fuel : Nat) : Prop :=
  ∀ calls path i t found, path ≠ [dot] → lookupPath dev rd fuel path = pure (some i) →
    runCalls (ext4 dev rd fuel) calls Vfs.empty = pure t →
      findNode (ext4 dev rd fuel) path t = pure found → inodeOf found = some i

def Agrees (g : FsReader Id) : Prop :=
  ∀ calls path i t found, path ≠ [dot] → lookupParts g.listDirectory 2 (pathParts path) = some i →
    runCalls g calls Vfs.empty = pure t → findNode g path t = pure found → inodeOf found = some i

variable {dev : Device Id} {rd : Ext4Reader} {fuel : Nat} {g : FsReader Id}

theorem listed_of_serves (h : Serves (ext4 dev rd fuel) g) : Listed g where
  names d hd entries hlist := by
    have hserved : listDirectory dev rd fuel d = pure (some entries) :=
      (h.list d hd).trans (by rw [hlist])
    exact (listDirectory_spec hserved).2
  dirs d hd entries hlist st hst := by
    have hserved : listDirectory dev rd fuel d = pure (some entries) :=
      (h.list d hd).trans (by rw [hlist])
    exact listed_isDirectory hserved ((h.stat d hd).trans (by rw [hst]))

theorem lookupParts_served {fs : FsReader (ExceptT Fault Id)} (h : Serves fs g) {d : UInt32}
    (hd : Linked g d) (parts : List Name) : lookupParts fs.listDirectory d parts =
      pure (lookupParts g.listDirectory d parts).run := by
  induction parts generalizing d with
  | nil => rfl
  | cons part parts ih =>
      rw [lookupParts, lookupParts, h.list d hd, pure_bind]
      have hmem : ∀ entries, g.listDirectory d = some entries → ∀ e ∈ entries, Linked g e.inode :=
        fun _ hlist _ he => .entry hd hlist he
      generalize g.listDirectory d = list at hmem
      cases (list : Option (List DirEntryInfo)) with
      | none => rfl
      | some entries =>
          dsimp only [Id.run, bind]
          cases hfind : entries.find? (·.name == part) with
          | none => rfl
          | some e => exact ih (hmem entries rfl e (List.mem_of_find?_eq_some hfind))

theorem lookupPath_served (hm : rd.mounted = true) (h : Serves (ext4 dev rd fuel) g) {path : Name}
    (hpath : path ≠ [dot]) : lookupPath dev rd fuel path =
      pure (lookupParts g.listDirectory 2 (pathParts path)).run := by
  rw [lookupPath_parts hm hpath]
  exact lookupParts_served h .root _

theorem agree_served (hm : rd.mounted = true) (h : Serves (ext4 dev rd fuel) g) :
    Agree dev rd fuel ↔ Agrees g := by
  refine forall_congr' fun calls => forall_congr' fun path => forall_congr' fun i =>
    forall_congr' fun t => forall_congr' fun found => forall_congr' fun hpath => ?_
  rw [lookupPath_served hm h hpath, runCalls_served h Inv.empty]
  refine imp_congr pure_inj (imp_congr_ctx pure_inj fun hrun => ?_)
  rw [findNode_served h (inv_of_run hrun)]
  exact imp_congr pure_inj Iff.rfl

theorem exists_root (hm : g.isMounted = true) (ho : Ordinary g) :
    ∃ root, rootNode g = some root ∧ root.inodeNum = 2 ∧ Typed g root := by
  obtain ⟨st, hst⟩ := ho.rootStat
  exact ⟨rootInfo st, rootNode_eq_some_iff.mpr ⟨hm, st, hst, rfl⟩, rfl, fun _ _ => rfl⟩

theorem uncached_parts (path : Name) :
    uncached g (normalizePath path) = (rootNode g).bind (walkInfo g (pathParts path)) := by
  rw [uncached, splitNorm_normalizePath]

theorem named_parts (ho : Ordinary g) (hl : Listed g) {names : List Name} {k : NodeInfo}
    (h : Named g names k) {path : Name} (hkey : cacheKey k = normalizePath path) :
    names = pathParts path := by
  obtain ⟨hpath, hplain, _⟩ := named_spec ho hl h
  rw [cacheKey, hpath, normalizePath_join hplain, normalizePath_eq] at hkey
  exact joinNames_injective (plain_of_names hplain) (plain_of_names (pathParts_plain path)) hkey

theorem agrees_of_unshadowed (hm : g.isMounted = true) (ho : Ordinary g) (hl : Listed g)
    (hu : Unshadowed g) : Agrees g := by
  intro calls path i t found _ hlookup hrun hfind
  have hinv := inv_of_run hrun
  by_cases hmiss : normalizePath path = [] ∨ t.nodeCache.lookup (normalizePath path) = none
  · obtain ⟨root, hroot, hinode, htyped⟩ := exists_root hm ho
    rw [← hinode] at hlookup
    obtain ⟨w, hw, hwi⟩ := exact_walk ho hl hu (by rw [hinode]; exact .root) htyped hlookup
    rw [inodeOf, findNode_miss hinv hmiss hfind, uncached_parts, hroot, Option.bind_some, hw,
      Option.map_some, hwi]
  · -- the cache knows nodes by the very names that lead to them
    obtain ⟨hq, hhit⟩ := not_or.mp hmiss
    obtain ⟨id, hid⟩ := Option.ne_none_iff_exists'.mp hhit
    obtain rfl := findNode_hit hq hid hfind
    obtain ⟨info, j, k, hreached, _, hk, hkey, hinfo⟩ := hinv.hit hq hid
    obtain ⟨names, hnamed⟩ := reached_named (hreached.kid (List.mem_of_getElem? hk))
    obtain ⟨_, _, _, hexact⟩ := named_spec ho hl hnamed
    rw [named_parts ho hl hnamed hkey] at hexact
    cases hlookup.symm.trans hexact
    change (infoAt t id).map _ = _
    rw [hinfo, Option.map_some]

structure Way (g : FsReader Id) (names : List Name) (i : UInt32) : Prop where
  plain : ∀ name ∈ names, PlainName name
  no_dot : ∀ name ∈ names, name ≠ [dot]
  exact : lookupParts g.listDirectory 2 names = some i

theorem Way.entry (ho : Ordinary g) (hl : Listed g) {names : List Name} {d : UInt32}
    (hway : Way g names d) (hd : Linked g d) {entries : List DirEntryInfo}
    (hlist : g.listDirectory d = some entries) {e : DirEntryInfo} (he : e ∈ entries) :
    Way g (names ++ [e.name]) e.inode where
  plain name hname := by
    rcases List.mem_append.mp hname with hname | hname
    · exact hway.plain name hname
    · rw [List.mem_singleton.mp hname]
      exact plain_of_listed ho hl hd hlist he
  no_dot name hname := by
    rcases List.mem_append.mp hname with hname | hname
    · exact hway.no_dot name hname
    · rw [List.mem_singleton.mp hname]
      exact (hl.names d hd entries hlist e he).2.1
  exact := by
    rw [lookupParts_append hway.exact,
      lookupParts_cons hlist (find_exact (ho.unique d hd entries hlist) he)]
    rfl

theorem exists_way (ho : Ordinary g) (hl : Listed g) {d : UInt32} (h : Linked g d) :
    ∃ names, Way g names d := by
  induction h with
  | root => exact ⟨[], nofun, nofun, rfl⟩
  | entry dir list mem ih =>
      obtain ⟨names, hway⟩ := ih
      exact ⟨_, hway.entry ho hl dir list mem⟩

theorem agreed_walk (h : Agrees g) {names : List Name} {i : UInt32} (hway : Way g names i) :
    ∃ w, (rootNode g).bind (walkInfo g names) = some w ∧ w.inodeNum = i := by
  have hparts := pathParts_join hway.plain
  have hdot : joinNames names ≠ [dot] := by
    intro hdot
    rw [hdot] at hparts
    exact hway.no_dot [dot] (by rw [← hparts]; exact List.mem_singleton_self _) rfl
  obtain ⟨r, t, hfind, _⟩ := findNode_inv (g := g) Inv.empty (joinNames names)
  have hinode := h [] (joinNames names) i _ _ hdot (by rw [hparts]; exact hway.exact) rfl hfind
  rw [inodeOf, findNode_miss Inv.empty (Or.inr rfl) hfind, uncached_parts, hparts] at hinode
  exact Option.map_eq_some_iff.mp hinode

theorem walkInfo_last {part : Name} {info w : NodeInfo} (h : walkInfo g [part] info = some w) :
    info.isDirectory = true ∧ (kids g info).find? (fun k => stricmp k.name part) = some w := by
  obtain ⟨hdir, k, hfind, hlast⟩ := walkInfo_cons_iff.mp h
  cases hlast
  exact ⟨hdir, hfind⟩

theorem unshadowed_of_agrees (ho : Ordinary g) (hl : Listed g) (h : Agrees g) : Unshadowed g := by
  intro d hd entries hlist e he e' hmatch
  obtain ⟨names, hway⟩ := exists_way ho hl hd
  obtain ⟨w, hw, rfl⟩ := agreed_walk h hway
  obtain ⟨w', hw', hinode⟩ := agreed_walk h (hway.entry ho hl hd hlist he)
  obtain ⟨root, hroot, hwalk⟩ := Option.bind_eq_some_iff.mp hw
  rw [hroot, Option.bind_some, walkInfo_append hwalk] at hw'
  -- the step from the directory to the entry takes the first match
  obtain ⟨hdir, hfind⟩ := walkInfo_last hw'
  have hmap := find_entryInfos w e.name (ho.stats _ hd entries hlist)
  rw [← kids_of_list hdir hlist, hfind, hmatch] at hmap
  exact (Option.some.inj hmap).symm.trans hinode

end Agreement

/-- Over any mounted filesystem with unique names that are free of separators, and with
a reader that answers, the two resolvers agree exactly when no entry is shadowed. -/
theorem resolvers_agree_iff (disk : Disk) (w : BlockDevice) (rd : Ext4Reader) (fuel : Nat)
    (g : FsReader Id) (hm : rd.mounted = true) (h : Serves (ext4 (disk.device w) rd fuel) g)
    (ho : Ordinary g) : Agree (disk.device w) rd fuel ↔ Unshadowed g := by
  have hmounted : g.isMounted = true := h.isMounted.symm.trans hm
  have hl := listed_of_serves h
  rw [agree_served hm h]
  exact ⟨unshadowed_of_agrees ho hl, agrees_of_unshadowed hmounted ho hl⟩

theorem caseReader_entries {d : UInt32} (h : Linked (answers caseReader) d) {entries : List DirEntryInfo}
    (hlist : (answers caseReader).listDirectory d = some entries) : entries = caseEntries := by
  obtain ⟨h2, h11, h12⟩ := caseReader_lists
  rcases caseReader_linked h with rfl | rfl | rfl
  · exact Option.some.inj (hlist.symm.trans (answers_list h2).2)
  · cases hlist.symm.trans (answers_list h11).2
  · cases hlist.symm.trans (answers_list h12).2

theorem caseReader_ordinary : Ordinary (answers caseReader) where
  unique d hd entries hlist := by
    rw [caseReader_entries hd hlist]
    decide
  separatorFree d hd entries hlist := by
    rw [caseReader_entries hd hlist]
    decide +kernel
  stats d hd entries hlist e he := by
    obtain ⟨st, _, hst⟩ := caseReader_stats (.entry hd hlist he)
    exact ⟨st, hst⟩
  rootStat := by
    obtain ⟨st, _, hst⟩ := caseReader_stats .root
    exact ⟨st, hst⟩

theorem resolvers_agree_iff_case :
    Agree (caseDisk.device wholeDevice) (plainReader 16) 2 ↔ Unshadowed (answers caseReader) :=
  resolvers_agree_iff caseDisk wholeDevice (plainReader 16) 2 (answers caseReader) rfl
    caseReader_serves caseReader_ordinary

/-- The exact name foo leads to the inode 12, and `find_node` to the node of Foo. -/
theorem lookup_shadowed_by_case : Serves caseReader (answers caseReader) ∧
    Ordinary (answers caseReader) ∧ ¬Agree (caseDisk.device wholeDevice) (plainReader 16) 2 := by
  refine ⟨caseReader_serves, caseReader_ordinary, fun h => ?_⟩
  have hlookup : result (lookupPath (caseDisk.device wholeDevice) (plainReader 16) 2
      [0x66, 0x6F, 0x6F]) = some (some 12) := by
    decide +kernel
  have hfind : result (findNode caseReader [0x66, 0x6F, 0x6F] Vfs.empty >>= fun found =>
      pure (inodeOf found)) = some (some 11) := by
    decide +kernel
  obtain ⟨found, hfound, hinode⟩ := bind_eq_pure.mp (result_eq_some.mp hfind)
  have hagree := h [] _ 12 _ found (by decide) (result_eq_some.mp hlookup) rfl hfound
  cases (pure_injective hinode).symm.trans hagree

end Linux2Win.Resolvers
