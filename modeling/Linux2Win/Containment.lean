import Linux2Win.CleanReads

namespace Linux2Win.Containment

open Bytes Devices Ext4Types Reader BlockMap FileData Directory Programs Traces FileContent ReadFile Blocks
open Walks DirRecords DirBounds DeviceRelations ReadCalls ImageBounds CleanReads

section Directories

variable {disk : Disk} {w : BlockDevice} {rd : Ext4Reader} {inode : Ext4Inode}

theorem copyLoop_maps {dev : Device Id} (hdev : Whole dev rd.blockSize) (hpos : 0 < rd.blockSize.toNat)
    {depth fuel : Nat} {offset remaining : UInt64} {written out : List Byte}
    (hno : offset.toNat + remaining.toNat < 2 ^ 64)
    (hrun : copyLoop dev rd inode depth fuel offset remaining written = pure (true, out)) {pos : Nat}
    (hle : offset.toNat ≤ pos) (hlt : pos < offset.toNat + remaining.toNat) :
    ∃ r, mapBlock dev rd depth inode (UInt32.ofNat (pos / rd.blockSize.toNat)) = pure r := by
  induction fuel generalizing offset remaining written with
  | zero => cases hrun
  | succ fuel ih =>
      have hrem : remaining ≠ 0 := by
        rintro rfl
        have : (0 : UInt64).toNat = 0 := rfl
        omega
      rw [copyLoop_succ hdev hpos fuel offset remaining written hrem] at hrun
      obtain ⟨mapped, hmapped, hrun⟩ := bind_eq_pure.mp hrun
      have hchunk := chunkSize_toNat offset remaining hpos
      obtain ⟨hoffset, hremaining, hwithin⟩ := next_toNat hpos hno
      by_cases hhere : pos < offset.toNat + (chunkSize rd offset remaining).toNat
      · obtain ⟨i, rfl⟩ := Nat.exists_eq_add_of_le hle
        have hmod := Nat.mod_lt offset.toNat hpos
        rw [(div_mod_within (by omega)).1]
        exact ⟨mapped, hmapped⟩
      · cases hb : blockContent dev rd mapped with
        | none =>
            rw [hb] at hrun
            cases pure_injective hrun
        | some b =>
            rw [hb] at hrun
            exact ih (by omega) hrun (by omega) (by omega)

theorem isContent_of_read (hmounted : rd.mounted = true) {inodeNum : UInt32}
    (hinode : readInode (disk.device w) rd inodeNum = pure (some inode))
    (hdir : inode.iMode &&& sIfmt = sIfdir) (hsize : inode.iSizeLo ≠ 0) {fuel : Nat} {r : ReadResult}
    (hread : readFileData (disk.device w) rd fuel inodeNum 0
      (some (List.replicate inode.iSizeLo.toUInt64.toNat 0)) inode.iSizeLo.toUInt64 = pure r)
    (hok : r.ok = true) : IsContent disk w rd inode r.buffer ∧ r.buffer.length = r.bytesRead.toNat := by
  have hacc := (rd.geometry hmounted).1
  have hdev := disk_whole disk w hacc
  have hne : inode.iSizeLo.toUInt64 ≠ 0 := fun h => hsize (UInt32.toUInt64_inj.mp h)
  have hno : (0 : UInt64).toNat + inode.iSizeLo.toUInt64.toNat < 2 ^ 64 := by
    have := inode.iSizeLo.toUInt64.toNat_lt
    exact (Nat.zero_add _).trans_lt this
  obtain ⟨out, hloop, hout, rfl⟩ := (readFileData_whole_iff hmounted hdev hinode
    (fileSize_directory hdir) hne).mp ⟨hread, hok⟩
  have hbuffer : overlay out (List.replicate inode.iSizeLo.toUInt64.toNat 0) = out :=
    overlay_whole (by rw [List.length_replicate, hout])
  obtain ⟨_, hbytes⟩ := (copyLoop_spec hdev hacc.bounds.1 hno hloop).2 rfl
  dsimp only
  rw [hbuffer]
  refine ⟨⟨by rw [hout, UInt32.toNat_toUInt64], mapOf (disk.device w) rd inode fuel, fun pos h => ⟨?_, ?_⟩⟩,
    hout⟩
  · obtain ⟨mapped, hmapped⟩ := copyLoop_maps hdev hacc.bounds.1 hno hloop (Nat.zero_le pos)
      (by rw [← hout]; exact Nat.lt_of_lt_of_eq h (Nat.zero_add _).symm)
    refine mapsTo_iff.mpr ⟨fuel, ?_⟩
    rw [mapOf, hmapped]
    rfl
  · have hbyte := hbytes pos h
    rwa [show (0 : UInt64).toNat + pos = pos from Nat.zero_add pos] at hbyte

theorem read_of_isContent (hmounted : rd.mounted = true) {inodeNum : UInt32}
    (hinode : readInode (disk.device w) rd inodeNum = pure (some inode))
    (hdir : inode.iMode &&& sIfmt = sIfdir) (hsize : inode.iSizeLo ≠ 0) {content : List Byte}
    (h : IsContent disk w rd inode content) : ∃ fuel r,
      readFileData (disk.device w) rd fuel inodeNum 0
        (some (List.replicate inode.iSizeLo.toUInt64.toNat 0)) inode.iSizeLo.toUInt64 = pure r ∧
      r.ok = true ∧ r.buffer = content := by
  obtain ⟨hlen, map, hcontent⟩ := h
  have hpos : 0 < content.length := by
    rw [hlen]
    exact Nat.pos_of_ne_zero fun h0 => hsize (UInt32.toNat_inj.mp h0)
  obtain ⟨bound, hbound⟩ := mapBlock_bounded
    (C := fun l => ∃ pos < content.length, UInt32.ofNat (pos / rd.blockSize.toNat) = l)
    (by rintro _ ⟨pos, hlt, rfl⟩; exact mapsTo_iff.mp (hcontent pos hlt).1)
  obtain ⟨fuel, hfuel, hlong⟩ : ∃ fuel, bound ≤ fuel ∧ content.length < fuel :=
    ⟨max bound (content.length + 1), le_max_left _ _,
      Nat.lt_of_lt_of_le (Nat.lt_succ_self _) (le_max_right _ _)⟩
  have hread := readFileData_whole disk w hmounted hinode (fileSize_directory hdir) hlen.symm hpos hlong
    (fun pos hlt => hbound fuel hfuel _ ⟨pos, hlt, rfl⟩) (fun pos h => (hcontent pos h).2)
    (List.replicate inode.iSizeLo.toUInt64.toNat 0)
  exact ⟨_, _, hread, rfl, overlay_whole (by rw [List.length_replicate, UInt32.toNat_toUInt64, hlen])⟩

theorem namesInside_of_located {dev : Device Id} {child : UInt32 → Option Ext4Inode}
    (hchild : ∀ n, readInode dev rd n = pure (child n)) {content : List Byte} {turns offset : Nat}
    (hturns : content.length < offset + turns) (hfirst : 0 < turns)
    (h : locatedEntries dev rd content content.length turns offset ≠ throw .outOfBounds) :
    Along (nextRecord content) (fun offset => (nextRecord content offset).isSome = true →
      InUse content offset → offset + 8 + nameLen content offset ≤ content.length) (some offset) := by
  induction turns generalizing offset with
  | zero => exact absurd hfirst (Nat.lt_irrefl 0)
  | succ turns ih =>
      rw [locatedEntries_succ] at h
      rw [along_some]
      cases hnext : nextRecord content offset with
      | none => exact ⟨nofun, along_none⟩
      | some next =>
          obtain ⟨hle, hlt⟩ := nextRecord_gt hnext
          rw [hnext, Option.elim_some] at h
          rcases recordEntry_cases content hchild offset with
            ⟨huse, hrun⟩ | ⟨_, _, hrun⟩ | ⟨_, hin, ⟨_, hrun⟩ | ⟨_, e, hrun, _⟩⟩
          · rw [hrun, pure_bind] at h
            refine ⟨fun _ hin => absurd hin huse, ih (by omega) (by omega) fun hrest => h ?_⟩
            rw [hrest, map_throw]
          · rw [hrun, throw_bind] at h
            exact absurd rfl h
          · rw [hrun, pure_bind] at h
            refine ⟨fun _ _ => hin, ih (by omega) (by omega) fun hrest => h ?_⟩
            rw [hrest, map_throw]
          · rw [hrun, pure_bind] at h
            refine ⟨fun _ _ => hin, ih (by omega) (by omega) fun hrest => h ?_⟩
            rw [hrest, map_throw]

theorem fine_recordEntry (hinodes : ∀ n, Fine disk w (readInode (traced disk w) rd n)) {content : List Byte}
    {offset : Nat} (hin : InUse content offset → offset + 8 + nameLen content offset ≤ content.length) :
    Fine disk w (recordEntry (traced disk w) rd content offset) := by
  rw [recordEntry_eq]
  split
  · exact clean_pure none
  · rename_i huse
    rw [if_neg (Nat.not_lt.mpr (hin (not_not.mp huse)))]
    split
    · exact clean_pure none
    · refine Clean.map _ ?_
      rw [dirEntry]
      dsimp only
      split
      · refine (hinodes _).bind (readInode_related logs_congruence (traced_logs disk w) rd _)
          fun child _ => ?_
        cases child <;> exact clean_pure _
      · exact clean_pure _

theorem fine_scan (hinodes : ∀ n, Fine disk w (readInode (traced disk w) rd n)) {content : List Byte}
    (turns : Nat) {offset : Nat} (entries : List DirEntryInfo)
    (hnames : Along (nextRecord content) (fun offset => (nextRecord content offset).isSome = true →
      InUse content offset → offset + 8 + nameLen content offset ≤ content.length) (some offset)) :
    Fine disk w (scanDirectory (traced disk w) rd content content.length turns offset entries) := by
  induction turns generalizing offset entries with
  | zero => exact clean_throw (by decide)
  | succ turns ih =>
      obtain ⟨hhere, hrest⟩ := along_some.mp hnames
      rw [scanDirectory]
      by_cases hend : content.length < offset + 8
      · rw [if_pos hend]
        exact clean_pure entries
      · rw [if_neg hend]
        dsimp only
        by_cases hzero : recLen content offset = 0
        · rw [if_pos (by rw [beq_iff_eq, ← UInt16.toNat_inj]; exact hzero)]
          exact clean_pure entries
        · rw [if_neg (by rw [beq_iff_eq, ← UInt16.toNat_inj]; exact hzero)]
          have hnext : nextRecord content offset = some (offset + recLen content offset) := by
            rw [nextRecord, if_neg hend, if_neg hzero]
          rw [hnext] at hhere hrest
          refine (fine_recordEntry hinodes (hhere rfl)).bind
            (recordEntry_related logs_congruence (traced_logs disk w) rd content offset)
            fun found _ => ih _ hrest

end Directories

section Calls

variable {disk : Disk} {w : BlockDevice} {rd : Ext4Reader} (hwindow : 0 < w.partitionSize)
  (hwin : w.partitionOffset.toNat + w.partitionSize.toNat ≤ disk.size) (hmounted : rd.mounted = true)

include hwindow hwin in
theorem fine_mount (isOpen : Bool) : Fine disk w (Reader.mount (traced disk w) isOpen rd) := by
  have hsuper : Fine disk w (traced disk w superblockOffset 1024) :=
    (fine_request hwindow hwin (by decide) (by decide)).mpr (not_escapes (by decide))
  rw [Reader.mount]
  dsimp only
  split
  · exact clean_pure _
  · refine hsuper.bind (traced_logs disk w _ _) fun b _ => ?_
    split
    · exact clean_pure _
    · split
      · exact clean_pure _
      · split
        · exact clean_pure _
        · split <;> exact clean_pure _

include hwindow hwin hmounted

section Sound

variable (h : StaysInside disk w rd)

include h

theorem stays_inode (inodeNum : UInt32) :
    Fine disk w (Reader.readInode (traced disk w) rd inodeNum) :=
  (fine_inode hwindow hwin hmounted inodeNum).mpr fun gd => h.records inodeNum gd

theorem stays_fileData (fuel : Nat) (inodeNum : UInt32) (offset : UInt64)
    (buffer : Option (List Byte)) (size : UInt64) :
    Fine disk w (FileData.readFileData (traced disk w) rd fuel inodeNum offset buffer size) := by
  have hacc := (rd.geometry hmounted).1
  cases buffer with
  | none => exact clean_pure _
  | some buffer =>
      rw [FileData.readFileData]
      by_cases hsize : size = 0
      · rw [if_pos (by simp [hsize])]
        exact clean_pure _
      · rw [if_neg (by simp [hmounted, hsize])]
        refine (stays_inode hwindow hwin hmounted h inodeNum).bind
          (readInode_related logs_congruence (traced_logs disk w) rd inodeNum) fun found hfound => ?_
        cases found with
        | none => exact clean_pure _
        | some inode =>
            dsimp only
            by_cases hinside : fileSize inode ≤ offset
            · rw [if_pos hinside]
              exact clean_pure _
            · rw [if_neg hinside]
              refine (fine_copyLoop hwindow hwin hacc (h.blocks inodeNum inode hfound) fuel fuel
                (.first (UInt64.not_le.mp hinside) hsize) []).bind
                (copyLoop_related logs_congruence (traced_logs disk w) rd inode fuel fuel _ _ _)
                fun r _ => ?_
              split <;> exact clean_pure _

theorem stays_symlinkTarget (fuel : Nat) (inodeNum : UInt32) :
    Fine disk w (Directory.readSymlinkTarget (traced disk w) rd fuel inodeNum) := by
  rw [Directory.readSymlinkTarget]
  refine (stays_inode hwindow hwin hmounted h inodeNum).bind
    (readInode_related logs_congruence (traced_logs disk w) rd inodeNum) fun inode _ => ?_
  split
  · exact clean_pure _
  · dsimp only
    split
    · exact clean_pure _
    · split
      · exact clean_pure _
      · refine (stays_fileData hwindow hwin hmounted h fuel _ _ _ _).bind
          (readFileData_related logs_congruence (traced_logs disk w) rd fuel _ _ _ _) fun r _ => ?_
        split <;> exact clean_pure _

theorem stays_stat (fuel : Nat) (inodeNum : UInt32) :
    Fine disk w (Directory.statInode (traced disk w) rd fuel inodeNum) := by
  rw [Directory.statInode]
  refine (stays_inode hwindow hwin hmounted h inodeNum).bind
    (readInode_related logs_congruence (traced_logs disk w) rd inodeNum) fun inode _ => ?_
  split
  · exact clean_pure _
  · dsimp only
    split
    · exact (stays_symlinkTarget hwindow hwin hmounted h fuel inodeNum).bind
        (readSymlinkTarget_related logs_congruence (traced_logs disk w) rd fuel inodeNum)
        fun _ _ => clean_pure _
    · exact (clean_pure _).bind (logs_congruence.pure _) fun _ _ => clean_pure _

theorem stays_listDirectory (fuel : Nat) (dirInodeNum : UInt32) :
    Fine disk w (Directory.listDirectory (traced disk w) rd fuel dirInodeNum) := by
  rw [Directory.listDirectory, if_neg (by simp [hmounted])]
  refine (stays_inode hwindow hwin hmounted h dirInodeNum).bind
    (readInode_related logs_congruence (traced_logs disk w) rd dirInodeNum) fun found hfound => ?_
  cases found with
  | none => exact clean_pure _
  | some inode =>
      dsimp only
      by_cases hdir : inode.iMode &&& sIfmt = sIfdir
      · rw [if_neg (by simp [hdir])]
        by_cases hsize : inode.iSizeLo = 0
        · rw [if_pos (by simp [hsize])]
          exact clean_pure _
        · have hne : inode.iSizeLo.toUInt64 ≠ 0 := fun h0 => hsize (UInt32.toUInt64_inj.mp h0)
          rw [if_neg (by simpa using hne)]
          refine (stays_fileData hwindow hwin hmounted h fuel _ _ _ _).bind
            (readFileData_related logs_congruence (traced_logs disk w) rd fuel _ _ _ _) fun r hr => ?_
          cases hok : r.ok with
          | false => exact clean_pure _
          | true =>
              obtain ⟨hcontent, hlen⟩ := isContent_of_read hmounted hfound hdir hsize hr hok
              rw [if_neg (by decide), ← hlen]
              refine (fine_scan (stays_inode hwindow hwin hmounted h) _ []
                (h.names dirInodeNum inode r.buffer hfound hdir hsize hcontent)).bind
                (scanDirectory_related logs_congruence (traced_logs disk w) rd _ _ _ _ _)
                fun _ _ => clean_pure _
      · rw [if_pos (by simpa using hdir)]
        exact clean_pure _

theorem stays_lookupPath (fuel : Nat) (path : Name) :
    Fine disk w (Directory.lookupPath (traced disk w) rd fuel path) := by
  have hparts : ∀ (currInode : UInt32) (parts : List Name),
      Fine disk w (lookupParts (Directory.listDirectory (traced disk w) rd fuel) currInode parts) := by
    intro currInode parts
    induction parts generalizing currInode with
    | nil => exact clean_pure _
    | cons part parts ih =>
        rw [lookupParts]
        refine (stays_listDirectory hwindow hwin hmounted h fuel currInode).bind
          (listDirectory_related logs_congruence (traced_logs disk w) rd fuel currInode)
          fun entries _ => ?_
        split
        · exact clean_pure _
        · split
          · exact clean_pure _
          · exact ih _
  rw [Directory.lookupPath]
  split
  · exact clean_pure _
  · split
    · exact clean_pure _
    · exact hparts 2 _

theorem stays_perform (fuel : Nat) (c : Call) :
    Fine disk w (perform (traced disk w) rd fuel c) := by
  have hlookup := stays_lookupPath hwindow hwin hmounted h fuel
  have hlogs := lookupPath_related logs_congruence (traced_logs disk w) rd fuel
  cases c with
  | mount isOpen => exact (fine_mount hwindow hwin isOpen).map _
  | readInode inodeNum => exact (stays_inode hwindow hwin hmounted h inodeNum).map _
  | statInode inodeNum => exact (stays_stat hwindow hwin hmounted h fuel inodeNum).map _
  | listDirectory dirInodeNum =>
      exact (stays_listDirectory hwindow hwin hmounted h fuel dirInodeNum).map _
  | lookupPath path => exact (hlookup path).map _
  | readFileData inodeNum offset buffer size =>
      exact (stays_fileData hwindow hwin hmounted h fuel inodeNum offset buffer size).map _
  | readSymlinkTarget inodeNum =>
      exact (stays_symlinkTarget hwindow hwin hmounted h fuel inodeNum).map _
  | statPath path =>
      refine Clean.map _ ((hlookup path).bind (hlogs path) fun found _ => ?_)
      split
      · exact clean_pure _
      · exact stays_stat hwindow hwin hmounted h fuel _
  | listDirectoryPath path =>
      refine Clean.map _ ((hlookup path).bind (hlogs path) fun found _ => ?_)
      split
      · exact clean_pure _
      · exact stays_listDirectory hwindow hwin hmounted h fuel _
  | readFileByPath path offset buffer size =>
      refine Clean.map _ ((hlookup path).bind (hlogs path) fun found _ => ?_)
      split
      · exact clean_pure _
      · exact stays_fileData hwindow hwin hmounted h fuel _ _ _ _

end Sound

theorem staysInside_of_fine (h : ∀ fuel c, Fine disk w (perform (traced disk w) rd fuel c)) :
    StaysInside disk w rd where
  records inodeNum gd :=
    (fine_inode hwindow hwin hmounted inodeNum).mp
      (Clean.of_map (h 0 (.readInode inodeNum))) gd
  blocks inodeNum inode hinode offset remaining hcomes more := by
    refine stays_of_fine hwindow hwin (rd.geometry hmounted).1 (fun offset size inside asks fuel => ?_)
      hcomes more
    have hdata : Fine disk w
        (FileData.readFileData (traced disk w) rd fuel inodeNum offset (some []) size) :=
      Clean.of_map (h fuel (.readFileData inodeNum offset (some []) size))
    have hloop : ∀ inode, Grows (copyLoop (traced disk w) rd inode fuel fuel offset
        (clippedSize inode offset size) []) := fun inode =>
      (copyLoop_related logs_congruence (traced_logs disk w) rd inode fuel fuel _ _ _).1
    rw [FileData.readFileData, if_neg (by simp [hmounted, asks])] at hdata
    have hrest := hdata.second (readInode_related logs_congruence (traced_logs disk w) rd inodeNum)
      (fun found => ?_) hinode
    · dsimp only at hrest
      rw [if_neg (UInt64.not_le.mpr inside)] at hrest
      refine hrest.first fun r => ?_
      rcases r with ⟨ok, written⟩
      cases ok <;> exact .pure _
    · cases found with
      | none => exact .pure _
      | some inode =>
          dsimp only
          split
          · exact .pure _
          · refine .bind (hloop inode) fun r => ?_
            rcases r with ⟨ok, written⟩
            cases ok <;> exact .pure _
  names inodeNum inode content hinode hdir hsize hcontent := by
    obtain ⟨fuel, r, hread, hok, rfl⟩ := read_of_isContent hmounted hinode hdir hsize hcontent
    have hlist : Fine disk w (Directory.listDirectory (traced disk w) rd fuel inodeNum) :=
      Clean.of_map (h fuel (.listDirectory inodeNum))
    have hfault : Directory.listDirectory (disk.device w) rd fuel inodeNum ≠ throw .outOfBounds :=
      fun hthrow => hlist.fault
        (listDirectory_related logs_congruence (traced_logs disk w) rd fuel inodeNum) hthrow rfl
    refine namesInside_of_located (readInode_readable disk w hmounted hinode) (Nat.lt_of_lt_of_eq
      (Nat.lt_succ_self _) (Nat.zero_add _).symm) (Nat.succ_pos _) fun hlocated => hfault ?_
    rw [listDirectory_located disk w hmounted hinode hdir hsize hread hok, hlocated, map_throw]

end Calls

/-- All calls on a reader keep to their window and to their buffers exactly when the image
keeps to both. -/
theorem reads_contained_iff (disk : Disk) (w : BlockDevice) (rd : Ext4Reader)
    (hmounted : rd.mounted = true) (hpos : 0 < w.partitionSize)
    (hwin : w.partitionOffset.toNat + w.partitionSize.toNat ≤ disk.size) :
    (∀ fuel c, (∀ e ∈ reads disk w rd fuel c, CopiesInside disk w e) ∧
        perform (disk.device w) rd fuel c ≠ throw .outOfBounds) ↔
      StaysInside disk w rd := by
  have hfine : ∀ fuel c, Fine disk w (perform (traced disk w) rd fuel c) ↔
      (∀ e ∈ reads disk w rd fuel c, CopiesInside disk w e) ∧
        perform (disk.device w) rd fuel c ≠ throw .outOfBounds := by
    intro fuel c
    refine (clean_iff (perform_related logs_congruence (traced_logs disk w) rd fuel c)).trans
      ⟨fun ⟨hfault, hreads⟩ => ⟨hreads, fun hthrow => hfault _ hthrow rfl⟩, ?_⟩
    rintro ⟨hreads, hthrow⟩
    refine ⟨?_, hreads⟩
    rintro _ he rfl
    exact hthrow he
  simp only [← hfine]
  exact ⟨staysInside_of_fine hpos hwin hmounted, fun h => stays_perform hpos hwin hmounted h⟩

/-- A partition behind the first 4096 bytes of a disk, whose only inode table is said
to start at block 2^54 - 1. -/
def hostileDisk : Disk :=
  .ofPieces 20480
    [(5120, le32Bytes 16 ++ le32Bytes 16), (5152, le32Bytes 8192), (5160, le32Bytes 16),
      (5176, le16Bytes 0xEF53), (5216, le32Bytes 0x80), (5374, le16Bytes 64),
      (6152, le32Bytes 0xFFFFFFFF), (6184, le32Bytes 0x003FFFFF)]

def hostileWindow : BlockDevice := opened false 4096 16384

def hostileReader : Ext4Reader :=
  ((result (Reader.mount (hostileDisk.device hostileWindow) true initial)).getD (false, initial)).2

theorem hostileReader_mounted : hostileReader.mounted = true := by
  decide +kernel

theorem reads_contained_iff_hostile :
    (∀ fuel c, (∀ e ∈ reads hostileDisk hostileWindow hostileReader fuel c,
          CopiesInside hostileDisk hostileWindow e) ∧
        perform (hostileDisk.device hostileWindow) hostileReader fuel c ≠ throw .outOfBounds) ↔
      StaysInside hostileDisk hostileWindow hostileReader :=
  reads_contained_iff hostileDisk hostileWindow hostileReader hostileReader_mounted (by decide)
    (by decide)

/-- The last 128 bytes before the partition come back as the record of inode 8. -/
theorem inode_read_before_window :
    Reader.mount (hostileDisk.device hostileWindow) true initial = pure (true, hostileReader) ∧
      ∃ e ∈ reads hostileDisk hostileWindow hostileReader 1 (.readInode 8),
        ¬CopiesInside hostileDisk hostileWindow e := by
  have hok : (result (Reader.mount (hostileDisk.device hostileWindow) true initial)).map Prod.fst =
      some true := by decide +kernel
  obtain ⟨⟨ok, rd⟩, hrd, rfl⟩ := Option.map_eq_some_iff.mp hok
  refine ⟨?_, (2 ^ 64 - 128, 128), by decide +kernel, fun h => ?_⟩
  · rw [hostileReader, hrd]
    exact result_eq_some.mp hrd
  · have hcopied : hostileDisk.copied hostileWindow (2 ^ 64 - 128) 128 =
        some (List.range' 3968 128) := by decide +kernel
    obtain ⟨ps, hps, _, hin⟩ := h _ (device_eq_some_iff.mpr ⟨_, hcopied, rfl⟩)
    cases hcopied.symm.trans hps
    exact absurd (hin 3968 (by decide)).1 (by decide)

end Linux2Win.Containment
