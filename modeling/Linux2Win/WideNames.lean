import Linux2Win.DirEnum
import Linux2Win.NodeSoundness
import Linux2Win.Utf

namespace Linux2Win.WideNames

open Bytes Devices Reader Directory Programs Vfs DirEnum Caches NodeTree TreeCalls TreeGrowth NodeCache
open Joins PathNames Listings NodeSoundness Utf

/-- The wide text that `GetDirEnumCallback` hands over for a name. -/
def passedName (name : Name) : WString := cStr (widen name)

def utf8Path (path : WString) : Name := utf8 (decode path)

def SamePath (path path' : Name) : Prop :=
  foldCase (normalizePath path) = foldCase (normalizePath path')

def AsciiName (name : Name) : Prop := ∀ c ∈ name, c ≠ 0 ∧ c < 0x80

def AsciiPath (path : WString) : Prop := ∀ u ∈ path, u ≠ 0 ∧ u < 0x80

section Names

theorem wide_byte : ∀ c : Byte, (c.toInt8.toInt16.toUInt16 = 0 → c = 0) ∧
    (c < 0x80 → c.toInt8.toInt16.toUInt16 = UInt16.ofNat c.toNat) :=
  forall_byte (by decide +kernel)

theorem passedName_eq {name : Name} (h : 0 ∉ name) : passedName name = widen name := by
  rw [passedName, cStr, List.takeWhile_eq_self_iff]
  intro u hu
  obtain ⟨c, hc, rfl⟩ := List.mem_map.mp hu
  rw [bne_iff_ne]
  intro h0
  rw [(wide_byte c).1 h0] at hc
  exact h hc

theorem wideName_ascii {text : List Char} (h : ∀ c ∈ text, c.toNat < 0x80) :
    widen (utf8 text) = utf16 text := by
  rw [utf8_all_ascii h, utf16_all_ascii h, widen, List.map_map]
  refine List.map_congr_left fun c hc => ?_
  have hnat : (UInt8.ofNat c.toNat).toNat = c.toNat :=
    UInt8.toNat_ofNat_of_lt' ((h c hc).trans (by decide))
  have hlow : UInt8.ofNat c.toNat < 0x80 := by
    rw [UInt8.lt_iff_toNat_lt, hnat]
    exact h c hc
  rw [Function.comp_apply, (wide_byte _).2 hlow, hnat]

theorem zero_mem_utf16 {text : List Char} (h : 0 ∈ utf8 text) : 0 ∈ utf16 text := by
  obtain ⟨c, hc, hb⟩ := List.mem_flatMap.mp h
  by_cases hlow : c.toNat < 0x80
  · rw [utf8_ascii hlow, List.mem_singleton] at hb
    have hnat : (UInt8.ofNat c.toNat).toNat = c.toNat :=
      UInt8.toNat_ofNat_of_lt' (hlow.trans (by decide))
    rw [← hb] at hnat
    refine List.mem_flatMap.mpr ⟨c, hc, ?_⟩
    rw [utf16_ascii hlow, ← hnat]
    exact List.mem_singleton_self _
  · exact absurd (utf8_high (Nat.le_of_not_lt hlow) 0 hb) (by decide)

theorem passedName_iff (text : List Char) :
    passedName (utf8 text) = utf16 text ↔ AsciiName (utf8 text) := by
  constructor
  · intro h
    have h0 : 0 ∉ utf8 text := by
      intro hmem
      have hcut := zero_mem_utf16 hmem
      rw [← h] at hcut
      simpa using List.mem_takeWhile_imp hcut
    rw [passedName_eq h0] at h
    have hascii : ∀ c ∈ text, c.toNat < 0x80 := by
      apply ascii_of_length
      rw [← h, widen, List.length_map]
    intro b hb
    refine ⟨fun hzero => h0 (hzero ▸ hb), ?_⟩
    rw [utf8_all_ascii hascii] at hb
    obtain ⟨c, hc, rfl⟩ := List.mem_map.mp hb
    rw [UInt8.lt_iff_toNat_lt, UInt8.toNat_ofNat_of_lt' ((hascii c hc).trans (by decide))]
    exact hascii c hc
  · intro h
    rw [passedName_eq fun h0 => (h 0 h0).1 rfl]
    exact wideName_ascii (ascii_of_utf8 fun b hb => (h b hb).2)

end Names

section Counts

variable {p : Byte → Bool}

structure CaseBlind (p : Byte → Bool) : Prop where
  separator : ∀ c, isSeparator c = true → p c = false
  toLower : ∀ c, p (Guids.toLower c) = p c

theorem caseBlind_high : CaseBlind highByte where
  separator := forall_byte (by decide +kernel)
  toLower := forall_byte (by decide +kernel)

theorem caseBlind_zero : CaseBlind (· == 0) where
  separator := forall_byte (by decide +kernel)
  toLower := forall_byte (by decide +kernel)

theorem countP_dropWhile (hp : p backslash = false) (l : Name) :
    (l.dropWhile (· == backslash)).countP p = l.countP p := by
  induction l with
  | nil => rfl
  | cons c l ih =>
      rw [List.dropWhile_cons]
      split
      · rename_i hc
        rw [ih, List.countP_cons, beq_iff_eq.mp hc, hp]
        rfl
      · rfl

theorem countP_normSteps (hp : CaseBlind p) (path norm : Name) :
    (path.foldl normStep norm).countP p = norm.countP p + path.countP p := by
  have hback : p backslash = false := hp.separator backslash rfl
  induction path generalizing norm with
  | nil => rfl
  | cons c path ih =>
      rw [List.foldl_cons, ih, normStep, List.countP_cons]
      split
      · rename_i hc
        rw [hp.separator c hc]
        split
        · rw [List.countP_append, List.countP_singleton, hback]
          rfl
        · rfl
      · rw [List.countP_append, List.countP_singleton]
        omega

theorem countP_normalizePath (hp : CaseBlind p) (path : Name) :
    (normalizePath path).countP p = path.countP p := by
  have hback : p backslash = false := hp.separator backslash rfl
  rw [normalizePath, List.rdropWhile, List.countP_reverse, countP_dropWhile hback, List.countP_reverse,
    countP_dropWhile hback, countP_normSteps hp, List.countP_nil, Nat.zero_add]

theorem countP_foldCase (hp : CaseBlind p) (path : Name) : (foldCase path).countP p = path.countP p := by
  rw [foldCase, List.countP_map]
  exact List.countP_congr fun c _ => by rw [Function.comp_apply, hp.toLower]

theorem SamePath.countP_eq (hp : CaseBlind p) {path path' : Name} (h : SamePath path path') :
    path.countP p = path'.countP p := by
  rw [← countP_normalizePath hp path, ← countP_foldCase hp, h, countP_foldCase hp,
    countP_normalizePath hp]

theorem countP_match (hp : CaseBlind p) {names parts : List Name} (h0 : ∀ name ∈ names, 0 ∉ name)
    (h : List.Forall₂ (fun name part => stricmp name part = true) names parts) :
    (joinNames names).countP p ≤ (joinNames parts).countP p := by
  have hback : p backslash = false := hp.separator backslash rfl
  rw [joinNames, joinNames, countP_join hback, countP_join hback]
  induction h with
  | nil => exact le_rfl
  | @cons name part _ _ hmatch _ ih =>
      rw [List.forall_mem_cons] at h0
      rw [List.flatten_cons, List.flatten_cons, List.countP_append, List.countP_append]
      refine Nat.add_le_add ?_ (ih h0.2)
      rw [stricmp, takeWhile_nul h0.1, beq_iff_eq] at hmatch
      rw [← countP_foldCase hp name, foldCase, hmatch]
      exact (countP_foldCase hp _).trans_le (List.takeWhile_sublist _).countP_le

end Counts

section Paths

variable {fs : FsReader (ExceptT Fault Id)} {w : WString} {info : NodeInfo}

theorem utf8Path_ascii (h : ∀ u ∈ w, u < 0x80) : utf8Path w = narrowPath w :=
  utf8_decode_ascii fun u hu => UInt16.lt_iff_toNat_lt.mp (h u hu)

theorem countP_narrowPath (w : WString) : (narrowPath w).countP highByte ≤ w.countP highUnit := by
  rw [narrowPath, List.countP_map]
  refine List.countP_mono_left fun u _ hu => ?_
  have hbyte := UInt8.le_iff_toNat_le.mp (of_decide_eq_true hu)
  rw [UInt16.toNat_toUInt8] at hbyte
  exact decide_eq_true (UInt16.le_iff_toNat_le.mpr (hbyte.trans (Nat.mod_le _ _)))

theorem zero_mem_narrowPath (h : ∀ u ∈ w, u < 0x80) : 0 ∈ narrowPath w ↔ 0 ∈ w := by
  rw [narrowPath, List.mem_map]
  constructor
  · rintro ⟨u, hu, h0⟩
    have hlow := UInt16.lt_iff_toNat_lt.mp (h u hu)
    have hnat := congrArg UInt8.toNat h0
    rw [UInt16.toNat_toUInt8, Nat.mod_eq_of_lt (hlow.trans (by decide))] at hnat
    rwa [← UInt16.toNat_inj.mp (show u.toNat = (0 : UInt16).toNat from hnat)]
  · exact fun h0 => ⟨0, h0, rfl⟩

theorem countP_sound {p : Byte → Bool} (hp : CaseBlind p) (h0 : 0 ∉ info.relativePath) {path : Name}
    (h : Sound fs path info) : info.relativePath.countP p ≤ path.countP p := by
  have hparts := h.parts
  rw [SameParts, splitNorm_normalizePath, splitNorm_normalizePath] at hparts
  rw [← countP_normalizePath hp info.relativePath, ← countP_normalizePath hp path, normalizePath_eq,
    normalizePath_eq path]
  exact countP_match hp (fun name hname hmem => h0 (mem_pathParts hname 0 hmem)) hparts

theorem samePath_iff (h0 : 0 ∉ info.relativePath) (h : Sound fs (narrowPath w) info) :
    SamePath (utf8Path w) info.relativePath ↔ AsciiPath w := by
  constructor
  · intro hsame
    have hcount := hsame.countP_eq caseBlind_high
    have hfound := countP_sound caseBlind_high h0 h
    have hnarrow := countP_narrowPath w
    have hwide := countP_utf8_decode w
    rw [utf8Path] at hcount
    have hnone : w.countP highUnit = 0 := by omega
    have hascii : ∀ u ∈ w, u < 0x80 := by
      intro u hu
      by_contra hhigh
      exact List.countP_eq_zero.mp hnone u hu (decide_eq_true (UInt16.not_lt.mp hhigh))
    refine fun u hu => ⟨?_, hascii u hu⟩
    rintro rfl
    have hzero := hsame.countP_eq caseBlind_zero
    rw [utf8Path_ascii hascii, (List.countP_eq_zero (l := info.relativePath)).mpr] at hzero
    · exact List.countP_eq_zero.mp hzero 0 ((zero_mem_narrowPath hascii).mpr hu) rfl
    · intro c hc hc0
      rw [beq_iff_eq] at hc0
      exact h0 (hc0 ▸ hc)
  · intro hascii
    have hlow : ∀ u ∈ w, u < 0x80 := fun u hu => (hascii u hu).2
    rw [utf8Path_ascii hlow]
    exact (h.folded fun h0 => (hascii 0 ((zero_mem_narrowPath hlow).mp h0)).1 rfl).symm

end Paths

/-- The path leads to a node: a walk over the directories ends there, or the node has
the path for its key. -/
def Leads (g : FsReader Id) (path : Name) : Prop :=
  (uncached g (normalizePath path)).isSome = true ∨
    ∃ info, Reached g info ∧ cacheKey info = normalizePath path

section Mounted

variable (fs : FsReader (ExceptT Fault Id))

/-- The name of each child that a session can hold is passed on as its text. -/
def NamesSurvive : Prop :=
  ∀ calls t, runCalls fs calls Vfs.empty = pure t → ∀ dir, ∀ c ∈ t.childNodes dir,
    ∀ text, c.2.name = utf8 text → passedName c.2.name = utf16 text

/-- A wide path that leads to a node means this node, and two of them that lead to one
node are the same path. -/
structure PathsSurvive (asked : Set WString) : Prop where
  meant : ∀ calls t, runCalls fs calls Vfs.empty = pure t → ∀ w ∈ asked, ∀ id t' info,
    findNodeW fs w t = pure (some id, t') → infoAt t' id = some info →
      SamePath (utf8Path w) info.relativePath
  apart : ∀ calls t, runCalls fs calls Vfs.empty = pure t → ∀ w ∈ asked, ∀ w' ∈ asked, ∀ id t' t'',
    findNodeW fs w t = pure (some id, t') → findNodeW fs w' t' = pure (some id, t'') →
      SamePath (utf8Path w) (utf8Path w')

variable {fs}

section Found

variable {path : Name}

theorem leads_of_find {t t' : VfsTree} (hinv : Inv (loadable fs) t) {id : NodeId}
    (hfind : findNode fs path t = pure (some id, t')) : Leads (loadable fs) path := by
  have hfind := findNode_loadable hfind
  by_cases hmiss : normalizePath path = [] ∨ t.nodeCache.lookup (normalizePath path) = none
  · have hwalk := congrArg Option.isSome (findNode_uncached hinv hmiss hfind)
    rw [Option.isSome_map, Option.isSome_map] at hwalk
    exact Or.inl hwalk.symm
  · obtain ⟨hq, hhit⟩ := not_or.mp hmiss
    obtain ⟨c, hc⟩ := Option.ne_none_iff_exists'.mp hhit
    obtain ⟨info, j, k, hreached, _, hk, hkey, _⟩ := hinv.hit hq hc
    exact Or.inr ⟨k, hreached.kid (List.mem_of_getElem? hk), hkey⟩

theorem find_of_walk (h : (uncached (loadable fs) (normalizePath path)).isSome = true) :
    ∃ id t', findNode fs path Vfs.empty = pure (some id, t') := by
  obtain ⟨found, t', hfind, _⟩ := findNode_inv (g := loadable fs) Inv.empty path
  have hwalk := congrArg Option.isSome (findNode_uncached Inv.empty (Or.inr rfl) hfind)
  rw [Option.isSome_map, Option.isSome_map, h] at hwalk
  obtain ⟨id, rfl⟩ := Option.isSome_iff_exists.mp hwalk
  exact ⟨id, t', findNode_backed (loadable_backs fs) Inv.empty hfind⟩

theorem root_of_reached {g : FsReader Id} {info : NodeInfo} (h : Reached g info) :
    (rootNode g).isSome = true := by
  induction h with
  | root h => rw [h]; rfl
  | kid _ _ ih => exact ih

theorem reached_key_nil {info : NodeInfo} (h : Reached (loadable fs) info)
    (hq : normalizePath path = []) : (uncached (loadable fs) (normalizePath path)).isSome = true := by
  obtain ⟨root, hroot⟩ := Option.isSome_iff_exists.mp (root_of_reached h)
  rw [uncached, hroot, hq]
  rfl

theorem leads_iff : Leads (loadable fs) path ↔ ∃ calls t id t',
    runCalls fs calls Vfs.empty = pure t ∧ findNode fs path t = pure (some id, t') := by
  constructor
  · rintro (hwalk | ⟨info, hreached, hkey⟩)
    · obtain ⟨id, t', hfind⟩ := find_of_walk hwalk
      exact ⟨[], _, id, t', rfl, hfind⟩
    by_cases hq : normalizePath path = []
    · obtain ⟨id, t', hfind⟩ := find_of_walk (reached_key_nil hreached hq)
      exact ⟨[], _, id, t', rfl, hfind⟩
    cases hreached with
    | root h =>
        rw [cacheKey, (rootNode_inode h).2.1] at hkey
        exact absurd hkey.symm hq
    | kid hparent hk =>
        -- the cache has the children of a directory that has just been loaded
        obtain ⟨calls, t, dir, n, hrun, hinv, hn, rfl, hun⟩ :=
          reached_by_calls (loadable_backs fs) hparent
        have hload := (runCalls_append calls _ hrun).trans (ensure_kids (loadable_backs fs) hn hun hk)
        obtain ⟨j, hlast⟩ := exists_isLast ⟨info, hk, hkey⟩
        exact ⟨_, _, _, _, hload, findNode_cached hq (lookup_insertAll_last hlast)⟩
  · rintro ⟨calls, t, id, t', hrun, hfind⟩
    exact leads_of_find (keyed_of_run hrun).1 hfind

end Found

theorem spelled_of_ascii (hne : ∀ k, Child (loadable fs) k → k.name ≠ [])
    (h : ∀ k, Child (loadable fs) k → AsciiName k.name) : Spelled fs where
  ne_nil := hne
  no_nul k hk h0 := (h k hk 0 h0).1 rfl

theorem sound_of_wide (hs : Spelled fs) {calls : List TreeCall} {t t' : VfsTree}
    (hrun : runCalls fs calls Vfs.empty = pure t) {w : WString} {id : NodeId}
    (hfind : findNodeW fs w t = pure (some id, t')) :
    ∃ info, infoAt t' id = some info ∧ 0 ∉ info.relativePath ∧ Sound fs (narrowPath w) info := by
  obtain ⟨hinv, hkeyed⟩ := keyed_of_run hrun
  obtain ⟨info, hinfo, hsound⟩ := sound_of_find hs hinv hkeyed hfind
  obtain ⟨n, hn, rfl⟩ := Option.map_eq_some_iff.mp hinfo
  have hreached := (inv_of_find hinv (findNode_loadable hfind)).reached id n hn
  exact ⟨n.info, hinfo, nul_not_mem_path hs hreached, hsound⟩

theorem run_find {calls : List TreeCall} {t t' : VfsTree} (hrun : runCalls fs calls Vfs.empty = pure t)
    {w : WString} {found : Option NodeId} (hfind : findNodeW fs w t = pure (found, t')) :
    runCalls fs (calls ++ [.findNode (narrowPath w)]) Vfs.empty = pure t' := by
  rw [runCalls_append calls _ hrun, TreeCall.perform]
  change Prod.snd <$> findNodeW fs w t = _
  rw [hfind, map_pure]

theorem pathsSurvive_of_ascii (hs : Spelled fs) {asked : Set WString}
    (h : ∀ w ∈ asked, Leads (loadable fs) (narrowPath w) → AsciiPath w) : PathsSurvive fs asked := by
  have hmeant : ∀ calls t, runCalls fs calls Vfs.empty = pure t → ∀ w ∈ asked, ∀ id t' info,
      findNodeW fs w t = pure (some id, t') → infoAt t' id = some info →
        SamePath (utf8Path w) info.relativePath := by
    intro calls t hrun w hw id t' info hfind hinfo
    obtain ⟨info', hinfo', h0, hsound⟩ := sound_of_wide hs hrun hfind
    cases hinfo.symm.trans hinfo'
    exact (samePath_iff h0 hsound).mpr (h w hw (leads_of_find (keyed_of_run hrun).1 hfind))
  refine ⟨hmeant, ?_⟩
  intro calls t hrun w hw w' hw' id t' t'' hfind hfind'
  have hrun' := run_find hrun hfind
  obtain ⟨info, hinfo, _⟩ := sound_of_wide hs hrun hfind
  obtain ⟨info', hinfo', _⟩ := sound_of_wide hs hrun' hfind'
  -- the second call leaves the node as it was
  obtain ⟨hinv, _⟩ := keyed_of_run hrun'
  obtain ⟨_, _, hagain, _, hext⟩ := findNode_inv hinv (narrowPath w')
  cases hagain.symm.trans (findNode_loadable hfind')
  cases (hext.infoAt hinfo).symm.trans hinfo'
  exact (hmeant calls t hrun w hw id t' info hfind hinfo).trans
    (hmeant _ t' hrun' w' hw' id t'' info hfind' hinfo').symm

theorem child_shown {k : NodeInfo} (h : Child (loadable fs) k) : ∃ calls t dir c,
    runCalls fs calls Vfs.empty = pure t ∧ c ∈ t.childNodes dir ∧ c.2 = k := by
  obtain ⟨parent, hreached, hk⟩ := h
  obtain ⟨calls, t, dir, n, hrun, hinv, hn, rfl, hun⟩ := reached_by_calls (loadable_backs fs) hreached
  have hload := (runCalls_append calls _ hrun).trans (ensure_kids (loadable_backs fs) hn hun hk)
  obtain ⟨hchildren, hlen⟩ :=
    (hinv.loadDir hn hun).childNodes (loadDir_node (List.getElem?_eq_some_iff.mp hn).1) rfl
  rw [← List.map_snd_zip hlen.ge, ← hchildren] at hk
  obtain ⟨c, hc, rfl⟩ := List.mem_map.mp hk
  exact ⟨_, _, dir, c, hload, hc, rfl⟩

theorem namesSurvive_iff (hvalid : ∀ k, Child (loadable fs) k → ∃ text, k.name = utf8 text) :
    NamesSurvive fs ↔ ∀ k, Child (loadable fs) k → AsciiName k.name := by
  constructor
  · intro hnames k hk
    obtain ⟨text, htext⟩ := hvalid k hk
    obtain ⟨calls, t, dir, c, hrun, hc, rfl⟩ := child_shown hk
    have hpassed := hnames calls t hrun dir c hc text htext
    rw [htext] at hpassed ⊢
    exact (passedName_iff text).mp hpassed
  · intro hascii calls t hrun dir c hc text htext
    obtain ⟨hinv, _⟩ := keyed_of_run hrun
    obtain ⟨n, hn, _, hk⟩ := hinv.mem_childNodes hc
    have hname := hascii c.2 ⟨n.info, hinv.reached dir n hn, hk⟩
    rw [htext] at hname ⊢
    exact (passedName_iff text).mpr hname

theorem survive_iff (hne : ∀ k, Child (loadable fs) k → k.name ≠ [])
    (hvalid : ∀ k, Child (loadable fs) k → ∃ text, k.name = utf8 text) (asked : Set WString) :
    (NamesSurvive fs ∧ PathsSurvive fs asked) ↔
      (∀ k, Child (loadable fs) k → AsciiName k.name) ∧
        ∀ w ∈ asked, Leads (loadable fs) (narrowPath w) → AsciiPath w := by
  rw [namesSurvive_iff hvalid]
  refine and_congr_right fun hascii => ?_
  have hs := spelled_of_ascii hne hascii
  constructor
  · intro hpaths w hw hleads
    obtain ⟨calls, t, id, t', hrun, hfind⟩ := leads_iff.mp hleads
    obtain ⟨info, hinfo, h0, hsound⟩ := sound_of_wide hs hrun hfind
    exact (samePath_iff h0 hsound).mp (hpaths.meant calls t hrun w hw id t' info hfind hinfo)
  · exact pathsSurvive_of_ascii hs

end Mounted

/-- On a mounted filesystem with names in UTF-8, names and paths survive between bytes
and wide characters exactly when the names of all nodes, and the wide paths that lead to
nodes, are ASCII. -/
theorem names_survive_iff (dev : Device Id) (rd : Ext4Reader) (fuel : Nat)
    (hvalid : ∀ k, Child (loadable (ext4 dev rd fuel)) k → ∃ text, k.name = utf8 text)
    (asked : Set WString) :
    (NamesSurvive (ext4 dev rd fuel) ∧ PathsSurvive (ext4 dev rd fuel) asked) ↔
      (∀ k, Child (loadable (ext4 dev rd fuel)) k → AsciiName k.name) ∧
        ∀ w ∈ asked, Leads (loadable (ext4 dev rd fuel)) (narrowPath w) → AsciiPath w := by
  refine survive_iff (fun k hk => ?_) hvalid asked
  obtain ⟨_, _, _, _, _, hlist, he, hname⟩ := entry_of_child hk
  rw [← hname]
  exact ((listDirectory_spec hlist).2 _ he).1

section Example

def accentDisk : Disk :=
  .ofPieces 16384
    [(2056, le32Bytes 5), (5248, le16Bytes 0x41ED ++ [0, 0] ++ le32Bytes 1024), (5288, le32Bytes 8),
      (6400, le16Bytes 0x8180),
      (8192, le32Bytes 11 ++ le16Bytes 1024 ++ [2, 1, 0xC3, 0xA9])]

def accentReader : FsReader (ExceptT Fault Id) := ext4 (accentDisk.device wholeDevice) (plainReader 16) 2

def accentEntry : DirEntryInfo := ⟨11, [0xC3, 0xA9], 1, false, false⟩

theorem accent_lists : accentReader.listDirectory 2 = pure (some [accentEntry]) ∧
    accentReader.listDirectory 11 = pure none := by
  have h : result (accentReader.listDirectory 2) = some (some [accentEntry]) ∧
      result (accentReader.listDirectory 11) = some none := by
    decide +kernel
  simpa only [result_eq_some] using h

theorem accent_entries {names : List Name} {d : UInt32} (h : Chain accentReader names d)
    {entries : List DirEntryInfo} (hlist : accentReader.listDirectory d = pure (some entries)) :
    entries = [accentEntry] := by
  obtain ⟨h2, h11⟩ := accent_lists
  have hdirs : d = 2 ∨ d = 11 := by
    clear hlist
    induction h with
    | root => exact Or.inl rfl
    | entry _ list mem ih =>
        rcases ih with rfl | rfl
        · cases pure_injective (list.symm.trans h2)
          exact Or.inr (congrArg DirEntryInfo.inode (List.mem_singleton.mp mem))
        · cases pure_injective (list.symm.trans h11)
  rcases hdirs with rfl | rfl
  · exact Option.some.inj (pure_injective (hlist.symm.trans h2))
  · cases pure_injective (hlist.symm.trans h11)

theorem accent_name {k : NodeInfo} (h : Child (loadable accentReader) k) : k.name = [0xC3, 0xA9] := by
  obtain ⟨names, d, entries, e, hchain, hlist, he, hname⟩ := entry_of_child h
  rw [accent_entries hchain hlist, List.mem_singleton] at he
  rw [← hname, he]
  rfl

theorem accent_valid (k : NodeInfo) (h : Child (loadable accentReader) k) : ∃ text, k.name = utf8 text :=
  ⟨[Char.ofNat 0xE9], by rw [accent_name h]; decide⟩

end Example

theorem names_survive_iff_accent :
    (NamesSurvive accentReader ∧ PathsSurvive accentReader {[0xC3, 0xA9]}) ↔
      (∀ k, Child (loadable accentReader) k → AsciiName k.name) ∧
        ∀ w ∈ ({[0xC3, 0xA9]} : Set WString), Leads (loadable accentReader) (narrowPath w) → AsciiPath w :=
  names_survive_iff (accentDisk.device wholeDevice) (plainReader 16) 2 accent_valid _

/-- The name é is shown as two other characters, and it is the wide path of these two
characters that leads to its node. -/
theorem accent_garbled :
    (∀ k, Child (loadable accentReader) k → ∃ text, k.name = utf8 text) ∧
      ¬NamesSurvive accentReader ∧ ¬PathsSurvive accentReader {[0xC3, 0xA9]} := by
  have hruns : result (findNodeW accentReader [0xC3, 0xA9] Vfs.empty >>= fun found =>
      pure (found.1, (infoAt found.2 1).map NodeInfo.relativePath,
        (found.2.childNodes 0).map fun c => c.2.name)) =
        some (some 1, some [0xC3, 0xA9], [[0xC3, 0xA9]]) := by
    decide +kernel
  obtain ⟨⟨found, t⟩, hfind, hseen⟩ := bind_eq_pure.mp (result_eq_some.mp hruns)
  obtain ⟨hid, hseen⟩ := Prod.mk.inj (pure_injective hseen)
  obtain ⟨hinfo, hchildren⟩ := Prod.mk.inj hseen
  obtain rfl : found = some 1 := hid
  refine ⟨accent_valid, fun h => ?_, fun h => ?_⟩
  · have hmem : [0xC3, 0xA9] ∈ (t.childNodes 0).map fun c => c.2.name := by
      rw [hchildren]
      exact List.mem_singleton_self _
    obtain ⟨c, hc, hname⟩ := List.mem_map.mp hmem
    have hrun : runCalls accentReader ([] ++ [.findNode (narrowPath [0xC3, 0xA9])]) Vfs.empty = pure t :=
      run_find rfl hfind
    have hpassed := h _ t hrun 0 c hc [Char.ofNat 0xE9] (hname.trans (by decide))
    rw [hname] at hpassed
    exact absurd hpassed (by decide)
  · obtain ⟨info, hinfo, hpath⟩ := Option.map_eq_some_iff.mp hinfo
    have hsame := h.meant [] _ rfl _ rfl 1 t info hfind hinfo
    rw [hpath] at hsame
    exact absurd hsame (by rw [SamePath]; decide)

end Linux2Win.WideNames
