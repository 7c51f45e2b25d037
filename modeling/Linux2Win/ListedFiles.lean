import Linux2Win.DirectoryViews
import Linux2Win.FileCommands

namespace Linux2Win.ListedFiles

open Bytes Devices Ext4Types Reader FileData Directory Partitions Enumerator Programs Vfs NodeTree
open PathNames Resolvers Listings ListedPaths Provider Volumes StoredVolumes ServedFiles DirectoryViews Exports
open FileCommands

section Paths

variable {v : Volume}

theorem follow_append (same : Name → Name → Bool) (parts rest : List Name) (d : UInt32) :
    v.follow same (parts ++ rest) d = (v.follow same parts d).bind (v.follow same rest) := by
  induction parts generalizing d with
  | nil => rfl
  | cons part parts ih =>
      rw [List.cons_append, Volume.follow, Volume.follow, Option.bind_assoc]
      refine congrArg _ (funext fun entries => ?_)
      rw [Option.bind_assoc]
      exact congrArg _ (funext fun e => ih e.inode)

theorem follow_linked {same : Name → Name → Bool} {parts : List Name} {d i : UInt32}
    (hd : Linked v.reader d) (h : v.follow same parts d = some i) : Linked v.reader i := by
  induction parts generalizing d with
  | nil => exact Option.some.inj h ▸ hd
  | cons part parts ih =>
      obtain ⟨entries, hentries, h⟩ := Option.bind_eq_some_iff.mp h
      obtain ⟨e, he, h⟩ := Option.bind_eq_some_iff.mp h
      have hlist : v.reader.listDirectory d = some (entries.map v.entryInfo) :=
        congrArg (Option.map _) hentries
      have hmem : v.entryInfo e ∈ entries.map v.entryInfo :=
        List.mem_map.mpr ⟨e, List.mem_of_find?_eq_some he, rfl⟩
      exact ih (.entry hd hlist hmem) h

theorem lookup_linked {path : Name} {d : UInt32} (h : v.lookup path = some d) : Linked v.reader d := by
  rw [Volume.lookup] at h
  split_ifs at h
  · exact Option.some.inj h ▸ .root
  · exact follow_linked .root h

theorem lookup_entry (hp : Projectable v.reader) {path : Name} (hdot : path ≠ [dot]) {d : UInt32}
    (hlookup : v.lookup path = some d) {entries : List Entry} (hentries : v.entries d = some entries)
    {e : Entry} (he : e ∈ entries) : v.lookup (path ++ [slash] ++ e.name) = some e.inode := by
  have hlinked := lookup_linked hlookup
  have hlist : v.reader.listDirectory d = some (entries.map v.entryInfo) :=
    congrArg (Option.map _) hentries
  have hmem : v.entryInfo e ∈ entries.map v.entryInfo := List.mem_map.mpr ⟨e, he, rfl⟩
  have hplain : PlainName e.name := by
    obtain ⟨n, size, hn, hc⟩ := Volume.entries_eq_some.mp hentries
    exact ⟨(v.names d n size entries hn hc e he).2.1, hp.separatorFree d hlinked _ hlist _ hmem⟩
  have hdistinct : entries.Pairwise fun e e' => stricmp e.name e'.name = false :=
    List.pairwise_map.mp (hp.distinct d hlinked _ hlist)
  have hfind : entries.find? (fun e' => e'.name == e.name) = some e := by
    clear hentries hlist hmem
    induction entries with
    | nil => cases he
    | cons x entries ih =>
        obtain ⟨hx, hrest⟩ := List.pairwise_cons.mp hdistinct
        rcases List.mem_cons.mp he with rfl | he
        · exact List.find?_cons_of_pos (beq_self_eq_true _)
        · rw [List.find?_cons_of_neg, ih he hrest]
          intro hsame
          have hdiffers := hx e he
          rw [eq_of_beq hsame, stricmp_refl] at hdiffers
          cases hdiffers
  have hne : path ++ [slash] ++ e.name ≠ [dot] := by
    intro h
    have hslash : slash ∈ path ++ [slash] ++ e.name := by simp
    rw [h, List.mem_singleton] at hslash
    exact absurd hslash (by decide)
  rw [Volume.lookup, if_neg hdot] at hlookup
  rw [Volume.lookup, if_neg hne, pathParts_entry path hplain, follow_append, hlookup, Option.bind_some,
    Volume.follow, hentries, Option.bind_some, hfind]
  rfl

end Paths

section Files

variable {disk : Disk} {w : BlockDevice} {rd : Ext4Reader} {v : Volume} {fuel : Nat} {src : Name}
  {i : UInt32} {n : Volumes.Node} {bytes : List Byte}

theorem readFileByPath_regular (hlookup : lookupPath (disk.device w) rd fuel src = pure (some i))
    (h : Answers disk w rd v fuel i) (hn : v.node i = some n) (hc : n.content = .regular bytes)
    (hlength : bytes.length < 2 ^ 64) {offset size : UInt64} (buffer : List Byte) (hpos : 0 < size.toNat)
    (hin : offset.toNat + size.toNat ≤ bytes.length) (hsmall : size.toNat < 2 ^ 32)
    (hfuel : size.toNat < fuel) :
    readFileByPath (disk.device w) rd fuel src offset (some buffer) size =
      pure ⟨true, overlay ((bytes.drop offset.toNat).take size.toNat) buffer, size⟩ := by
  have hread : v.read i offset.toNat size.toNat = some ((bytes.drop offset.toNat).take size.toNat) := by
    rw [Volume.read, hn, Option.bind_some, hc]
  have hall : ((bytes.drop offset.toNat).take size.toNat).length = size.toNat := by
    rw [List.length_take, List.length_drop]
    omega
  rw [readFileByPath, hlookup, pure_bind]
  dsimp only
  rw [h.read offset size buffer _ hpos hsmall (by omega) hfuel hread, hall, UInt64.ofNat_toNat]

theorem exportLoop_regular (hlookup : lookupPath (disk.device w) rd fuel src = pure (some i))
    (h : Answers disk w rd v fuel i) (hn : v.node i = some n) (hc : n.content = .regular bytes)
    {size : UInt64} (hsize : size.toNat = bytes.length) (hfuel : 65536 < fuel) (turns : Nat)
    (offset : UInt64) (buf out : List Byte) (hbuf : buf.length = 65536) (hle : offset.toNat ≤ bytes.length)
    (hturns : bytes.length - offset.toNat < turns) :
    exportLoop (ext4Source (disk.device w) rd fuel) src size turns offset buf out =
      pure (out ++ bytes.drop offset.toNat, size) := by
  induction turns generalizing offset buf out with
  | zero => omega
  | succ turns ih =>
      rw [exportLoop]
      by_cases hlt : offset < size
      · have hlt' := UInt64.lt_iff_toNat_lt.mp hlt
        have hlength := size.toNat_lt
        have hchunk := chunk_toNat hlt'
        obtain ⟨toRead, htoRead⟩ : ∃ toRead, toRead = min 65536 (size - offset) := ⟨_, rfl⟩
        rw [← htoRead] at hchunk
        have hread : readFileByPath (disk.device w) rd fuel src offset (some buf) toRead =
            pure ⟨true, overlay ((bytes.drop offset.toNat).take toRead.toNat) buf, toRead⟩ :=
          readFileByPath_regular hlookup h hn hc (by omega) buf (by omega) (by omega) (by omega) (by omega)
        have hdata : ((bytes.drop offset.toNat).take toRead.toNat).length = toRead.toNat := by
          rw [List.length_take, List.length_drop]
          omega
        have hnext : (offset + toRead).toNat = offset.toNat + toRead.toNat := by
          rw [UInt64.toNat_add, Nat.mod_eq_of_lt (by omega)]
        have hne : toRead ≠ 0 := fun h => by rw [h, UInt64.toNat_zero] at hchunk; omega
        have hover := overlay_length ((bytes.drop offset.toNat).take toRead.toNat) buf (by omega)
        have hfits : ¬(overlay ((bytes.drop offset.toNat).take toRead.toNat) buf).length < toRead.toNat := by
          omega
        rw [if_neg (not_not_intro hlt), ← htoRead]
        change readFileByPath (disk.device w) rd fuel src offset (some buf) toRead >>= _ = _
        rw [hread, pure_bind]
        dsimp only
        rw [if_neg (by simpa using hne), if_neg hfits, overlay_take hdata,
          ih (offset + toRead) _ _ (by omega) (by omega) (by omega), hnext, List.append_assoc,
          ← List.drop_drop, List.take_append_drop]
      · have hend : bytes.drop offset.toNat = [] := by
          rw [UInt64.lt_iff_toNat_lt] at hlt
          exact List.drop_eq_nil_of_le (by omega)
        have hsame : offset = size := by
          rw [UInt64.lt_iff_toNat_lt] at hlt
          exact UInt64.toNat_inj.mp (by omega)
        rw [if_pos hlt, hend, List.append_nil, hsame]

theorem statPath_regular (hlookup : lookupPath (disk.device w) rd fuel src = pure (some i))
    (h : Answers disk w rd v fuel i) (hn : v.node i = some n) (hc : n.content = .regular bytes) :
    ∃ st, statPath (disk.device w) rd fuel src = pure (some st) ∧ v.stat i = some st ∧
      st.isRegular = true ∧ st.size = UInt64.ofNat bytes.length := by
  have hst : v.stat i = some _ := congrArg (Option.map _) hn
  refine ⟨_, ?_, hst, ?_, ?_⟩
  · rw [statPath, hlookup, pure_bind]
    dsimp only
    rw [h.stat, hst]
  · change n.content.isRegular = true
    rw [hc]
    rfl
  · change UInt64.ofNat n.content.size = _
    rw [hc]
    rfl

theorem catFile_regular (hlookup : lookupPath (disk.device w) rd fuel src = pure (some i))
    (h : Answers disk w rd v fuel i) (hn : v.node i = some n) (hc : n.content = .regular bytes)
    (hsmall : bytes.length < 2 ^ 32) (hfuel : bytes.length < fuel) :
    catFile (ext4Source (disk.device w) rd fuel) src = pure ⟨bytes, false⟩ := by
  obtain ⟨st, hstat, _, hregular, hsize⟩ := statPath_regular hlookup h hn hc
  have hcond : ¬(!st.isRegular) = true := by simp [hregular]
  have hlength : st.size.toNat = bytes.length := by
    rw [hsize, UInt64.toNat_ofNat_of_lt' (by simp only [UInt64.size]; omega)]
  rw [catFile]
  change statPath (disk.device w) rd fuel src >>= _ = _
  rw [hstat, pure_bind]
  dsimp only
  rw [if_neg hcond]
  change readFileByPath (disk.device w) rd fuel src 0 (some (List.replicate st.size.toNat 0)) st.size >>= _ = _
  rcases Nat.eq_zero_or_pos st.size.toNat with hzero | hpos
  · have hempty : bytes = [] := List.length_eq_zero_iff.mp (hlength.symm.trans hzero)
    have hsize0 : st.size = 0 := UInt64.toNat_inj.mp hzero
    rw [hsize0, readFileByPath, hlookup, pure_bind]
    dsimp only
    rw [readFileData, if_pos (by simp), hempty]
    rfl
  · have hover := overlay_length bytes (List.replicate st.size.toNat 0)
      (by rw [List.length_replicate]; omega)
    rw [List.length_replicate] at hover
    have hfits : ¬(overlay bytes (List.replicate st.size.toNat 0)).length < st.size.toNat := by omega
    have hall : (bytes.drop (0 : UInt64).toNat).take st.size.toNat = bytes := by
      rw [UInt64.toNat_zero, List.drop_zero, hlength, List.take_length]
    rw [readFileByPath_regular hlookup h hn hc (by omega) _ hpos
      (by rw [UInt64.toNat_zero, Nat.zero_add, hlength]) (by omega) (by omega), hall, pure_bind]
    dsimp only
    rw [if_neg (by simp), if_neg hfits, overlay_take hlength.symm]

theorem exportFile_whole (hlookup : lookupPath (disk.device w) rd fuel src = pure (some i))
    (h : Answers disk w rd v fuel i) (hn : v.node i = some n) (hc : n.content = .regular bytes)
    (hlength : bytes.length < 2 ^ 64) (hfuel : 65536 < fuel) {turns : Nat} (hturns : bytes.length < turns)
    {files : Destinations} {dst : Name} (hopens : files.opens (dstPath files src dst) = true) :
    exportFile (ext4Source (disk.device w) rd fuel) files turns src dst =
      pure ⟨some (dstPath files src dst), bytes, UInt64.ofNat bytes.length,
        [.exported src (dstPath files src dst) (UInt64.ofNat bytes.length)]⟩ := by
  obtain ⟨st, hstat, _, hregular, hsize⟩ := statPath_regular hlookup h hn hc
  have hsize' : st.size.toNat = bytes.length := by
    rw [hsize, UInt64.toNat_ofNat_of_lt' (by simp only [UInt64.size]; omega)]
  have hsource : (ext4Source (disk.device w) rd fuel).statPath src = pure (some st) := hstat
  rw [exportFile_regular hsource hregular, if_pos hopens,
    exportLoop_regular hlookup h hn hc hsize' hfuel turns 0 _ [] List.length_replicate (Nat.zero_le _)
      (by rw [UInt64.toNat_zero]; omega), pure_bind, hsize]
  rfl

end Files

section Commands

variable {inspect : UInt32 → Option DiskInfo} {createFile : Bool → Bool} {diskIdx partIdx : UInt32}
  {p : Projection}

theorem opens_source (h : OpensAs inspect createFile diskIdx partIdx p) (fuel : Nat) : ∃ part,
    ((inspect diskIdx).bind fun disk => disk.partitions.find? (cmdCatMatches partIdx)) = some part ∧
      openPartition createFile p.disk.device fuel part =
        pure (some (ext4Source (p.disk.device p.window) p.rd fuel)) := by
  obtain ⟨info, part, hdisk, hpart, hdata, hopen⟩ := h.found
  refine ⟨part, ?_, ?_⟩
  · obtain ⟨hnumber, before, behind, hsplit, hbefore⟩ := List.find?_eq_some_iff_append.mp hpart
    rw [hdisk, Option.bind_some, List.find?_eq_some_iff_append]
    refine ⟨by rw [cmdCatMatches, hnumber, hdata]; rfl, before, behind, hsplit, fun a ha => ?_⟩
    have hother := hbefore a ha
    rw [Bool.not_eq_true'] at hother
    rw [cmdCatMatches, hother]
    rfl
  · rw [openPartition, hopen]
    dsimp only
    rw [h.mounts, pure_bind]
    rfl

theorem regular_length {p : Projection} {i : UInt32} {n : Volumes.Node} {bytes : List Byte}
    (hn : p.volume.node i = some n) (hc : n.content = .regular bytes) : bytes.length < 2 ^ 64 := by
  obtain ⟨inode, _, hnode⟩ := p.stored.inodes i n hn
  have hcontent := hnode.content
  rw [hc] at hcontent
  rw [← hcontent.size]
  exact (fileSize inode).toNat_lt

end Commands

/-- The regular files among the entries that `ls` prints of a directory are handed over and
copied under their paths byte for byte, and the listing has their sizes. -/
theorem listed_files_delivered (p : Projection) : ∃ bound, ∀ fuel ≥ bound,
    ∀ (inspect : UInt32 → Option DiskInfo) (createFile : Bool → Bool) (diskIdx partIdx : UInt32),
      OpensAs inspect createFile diskIdx partIdx p →
      ∀ (path : Name) (d : UInt32) (entries : List Entry), queryPath path ≠ [dot] →
        p.volume.lookup (queryPath path) = some d → p.volume.entries d = some entries →
        cmdLs inspect createFile p.disk.device fuel diskIdx partIdx path =
            pure (.listed (queryPath path) diskIdx partIdx (entries.map (entryRow p.volume))) ∧
          ∀ e ∈ entries, ∀ n bytes, p.volume.node e.inode = some n → n.content = .regular bytes →
            (entryRow p.volume e).size = some (UInt64.ofNat bytes.length) ∧
            (bytes.length < 2 ^ 32 →
              cmdCat inspect (openPartition createFile p.disk.device fuel) diskIdx partIdx
                (queryPath path ++ [slash] ++ e.name) = pure ⟨bytes, false⟩) ∧
            ∀ files dst path', path' = dstPath files (queryPath path ++ [slash] ++ e.name) dst →
              files.opens path' = true → ∀ turns > bytes.length,
              cmdExport inspect (openPartition createFile p.disk.device fuel) files turns diskIdx partIdx
                (queryPath path ++ [slash] ++ e.name) dst =
                  pure ⟨some path', bytes, UInt64.ofNat bytes.length,
                    [.exported (queryPath path ++ [slash] ++ e.name) path'
                      (UInt64.ofNat bytes.length)]⟩ := by
  obtain ⟨bound, hbound⟩ := exists_enough p
  refine ⟨max bound (2 ^ 32), fun fuel hfuel inspect createFile diskIdx partIdx hopens path d entries hdot
    hlookup hentries => ?_⟩
  have hanswers := hbound fuel ((le_max_left _ _).trans hfuel)
  have h32 : 2 ^ 32 ≤ fuel := (le_max_right _ _).trans hfuel
  refine ⟨cmdLs_stored hopens hanswers hlookup hentries, fun e he n bytes hn hc => ?_⟩
  obtain ⟨part, hpart, hsource⟩ := opens_source hopens fuel
  have h := hanswers e.inode n hn
  have hfile : lookupPath (p.disk.device p.window) p.rd fuel (queryPath path ++ [slash] ++ e.name) =
      pure (some e.inode) := by
    rw [lookupPath_stored p.stored.mounted hanswers,
      lookup_entry p.projectable hdot hlookup hentries he]
  refine ⟨?_, fun hsmall => ?_, fun files dst path' hpath hdst turns hturns => ?_⟩
  · have hstat : p.volume.stat e.inode = some _ := congrArg (Option.map _) hn
    simp only [entryRow, listRow, Volume.entryInfo, hstat, hn, hc, Option.map_some, Option.getD_some,
      Content.isDirectory, Content.size, listedSize, Bool.false_eq_true, if_false]
  · rw [cmdCat, hpart]
    dsimp only
    rw [hsource, pure_bind]
    exact catFile_regular hfile h hn hc hsmall (lt_of_lt_of_le hsmall h32)
  · subst hpath
    rw [cmdExport, hpart]
    dsimp only
    rw [hsource, pure_bind]
    exact exportFile_whole hfile h hn hc (regular_length hn hc) (by omega) hturns hdst

section Example

theorem listed_files_delivered_plain : ∃ fuel rows,
    cmdLs plainInspect (fun _ => true) plainDisk.device fuel 0 1 [] = pure (.listed [slash] 0 1 rows) ∧
    cmdCat plainInspect (openPartition (fun _ => true) plainDisk.device fuel) 0 1 [slash, slash, 0x66] =
      pure ⟨[0x61, 0x62, 0x63], false⟩ ∧
    cmdExport plainInspect (openPartition (fun _ => true) plainDisk.device fuel) anyFile 4 0 1
        [slash, slash, 0x66] [0x67] =
      pure ⟨some [0x67], [0x61, 0x62, 0x63], 3, [.exported [slash, slash, 0x66] [0x67] 3]⟩ := by
  obtain ⟨bound, hbound⟩ := listed_files_delivered plainProjection
  obtain ⟨hls, hfiles⟩ := hbound bound (Nat.le_refl _) plainInspect (fun _ => true) 0 1 plain_opens [] 2 _
    (by decide) rfl rfl
  obtain ⟨_, hcat, hexport⟩ := hfiles ⟨[0x66], 12, 1⟩ (List.mem_of_getElem? (i := 1) rfl)
    (regularNode [0x61, 0x62, 0x63]) [0x61, 0x62, 0x63] rfl rfl
  exact ⟨_, _, hls, hcat (by decide), hexport anyFile [0x67] [0x67] rfl rfl 4 (by decide)⟩

end Example

end Linux2Win.ListedFiles
