import Linux2Win.Listings
import Linux2Win.ReadFile

namespace Linux2Win.DirRecords

open Bytes Devices Ext4Types Reader BlockMap FileData Directory Programs FileContent ReadFile Listings

/-- A directory record. Its stored length takes in what follows the name: padding, a
checksum tail, or the rest of a block that holds hashed indices. -/
structure Ext4DirEntry2 where
  inode : UInt32
  name : Name
  fileType : Byte
  padding : List Byte
  name_length : name.length ≤ 255
  recLen_lt : 8 + name.length + padding.length < 65536
  recLen_aligned : 4 ∣ 8 + name.length + padding.length

namespace Ext4DirEntry2

variable (r : Ext4DirEntry2)

def recLen : Nat := 8 + r.name.length + r.padding.length

def encode : List Byte :=
  le32Bytes r.inode ++ (le16Bytes (UInt16.ofNat r.recLen) ++
    (UInt8.ofNat r.name.length :: r.fileType :: (r.name ++ r.padding)))

def Live : Prop := r.inode ≠ 0 ∧ ListedName r.name

instance : Decidable r.Live :=
  inferInstanceAs (Decidable (r.inode ≠ 0 ∧ r.name ≠ [] ∧ r.name ≠ [dot] ∧ r.name ≠ [dot, dot]))

def entry (child : UInt32 → Option Ext4Inode) : DirEntryInfo :=
  match if r.fileType = 0 then child r.inode else none with
  | none => ⟨r.inode, r.name, r.fileType, r.fileType == 2, r.fileType == 7⟩
  | some inode =>
    ⟨r.inode, r.name, r.fileType, inode.iMode &&& sIfmt == sIfdir, inode.iMode &&& sIfmt == sIflnk⟩

theorem length_encode : r.encode.length = r.recLen := by
  simp only [encode, le32Bytes, le16Bytes, List.length_append, List.length_cons, List.length_nil,
    recLen]
  omega

section Fields

variable (pre post : List Byte)

theorem inode_encode : le32 (pre ++ (r.encode ++ post)) pre.length = r.inode := by
  have h := le32_append_right pre (r.encode ++ post) 0
  rw [Nat.add_zero] at h
  rw [h, encode, List.append_assoc, le32_le32Bytes]

theorem recLen_encode : (le16 (pre ++ (r.encode ++ post)) (pre.length + 4)).toNat = r.recLen := by
  rw [le16_append_right, encode, List.append_assoc,
    show 4 = (le32Bytes r.inode).length + 0 from rfl, le16_append_right, List.append_assoc,
    le16_le16Bytes]
  exact Nat.mod_eq_of_lt r.recLen_lt

theorem nameLen_encode :
    (byteAt (pre ++ (r.encode ++ post)) (pre.length + 6)).toNat = r.name.length := by
  rw [byteAt_append_right]
  exact Nat.mod_eq_of_lt (Nat.lt_succ_of_le r.name_length)

theorem fileType_encode : byteAt (pre ++ (r.encode ++ post)) (pre.length + 7) = r.fileType := by
  rw [byteAt_append_right]
  rfl

theorem name_encode :
    ((pre ++ (r.encode ++ post)).drop (pre.length + 8)).take r.name.length = r.name := by
  rw [List.drop_append, List.drop_of_length_le (by omega), Nat.add_sub_cancel_left, List.nil_append]
  change ((r.name ++ r.padding) ++ post).take r.name.length = r.name
  rw [List.append_assoc, List.take_left]

end Fields

end Ext4DirEntry2

def encodeAll (records : List Ext4DirEntry2) : List Byte := records.flatMap Ext4DirEntry2.encode

section Scan

variable {dev : Device Id} {rd : Ext4Reader} {child : UInt32 → Option Ext4Inode}

theorem dirEntry_record (hchild : ∀ n, readInode dev rd n = pure (child n)) (r : Ext4DirEntry2) :
    dirEntry dev rd r.inode r.name r.fileType = pure (r.entry child) := by
  rw [dirEntry, hchild, Ext4DirEntry2.entry]
  by_cases h : r.fileType = 0
  · simp only [h, beq_self_eq_true, if_true, pure_bind]
    cases child r.inode <;> rfl
  · simp only [h, beq_iff_eq, if_false]

theorem recordEntry_encode (hchild : ∀ n, readInode dev rd n = pure (child n))
    (pre post : List Byte) (r : Ext4DirEntry2) :
    recordEntry dev rd (pre ++ (r.encode ++ post)) pre.length =
      pure (if r.Live then some (r.entry child) else none) := by
  have hlen := r.length_encode
  have hname := r.nameLen_encode pre post
  have hzero : (byteAt (pre ++ (r.encode ++ post)) (pre.length + 6) == 0) = (r.name == []) := by
    rw [Bool.eq_iff_iff, beq_iff_eq, beq_iff_eq, ← UInt8.toNat_inj, hname, List.length_eq_zero_iff.symm]
    rfl
  rw [recordEntry]
  dsimp only
  rw [r.inode_encode, r.fileType_encode, hzero, hname, r.name_encode]
  have hinside : ¬(pre ++ (r.encode ++ post)).length < pre.length + 8 + r.name.length := by
    simp only [List.length_append, hlen, Ext4DirEntry2.recLen]
    omega
  by_cases hused : (r.inode == 0 || r.name == []) = true
  · rw [if_pos hused, if_neg]
    rintro ⟨hinode, hnil, _⟩
    simp [hinode, hnil] at hused
  · rw [if_neg hused, if_neg hinside]
    by_cases hdots : (r.name == [dot] || r.name == [dot, dot]) = true
    · rw [if_pos hdots, if_neg]
      rintro ⟨_, _, hdot, hdotdot⟩
      simp [hdot, hdotdot] at hdots
    · rw [if_neg hdots, dirEntry_record hchild, if_pos]
      · rfl
      · simp only [Bool.or_eq_true, beq_iff_eq, not_or] at hused hdots
        exact ⟨hused.1, hused.2, hdots.1, hdots.2⟩

theorem scanDirectory_encode (hchild : ∀ n, readInode dev rd n = pure (child n))
    (records : List Ext4DirEntry2) (pre : List Byte) (entries : List DirEntryInfo) {turns : Nat}
    (hturns : records.length < turns) :
    scanDirectory dev rd (pre ++ encodeAll records) (pre ++ encodeAll records).length turns pre.length
        entries =
      pure (entries ++ (records.filter (·.Live)).map (·.entry child)) := by
  induction records generalizing pre entries turns with
  | nil =>
      obtain ⟨turns, rfl⟩ := Nat.exists_eq_add_of_lt hturns
      rw [encodeAll, List.flatMap_nil, List.append_nil, scanDirectory, if_pos (by omega),
        List.filter_nil, List.map_nil, List.append_nil]
  | cons r records ih =>
      obtain ⟨turns, rfl⟩ : ∃ n, turns = n + 1 := ⟨turns - 1, by omega⟩
      have hall : pre ++ encodeAll (r :: records) = pre ++ (r.encode ++ encodeAll records) := rfl
      have hassoc : pre ++ (r.encode ++ encodeAll records) = (pre ++ r.encode) ++ encodeAll records :=
        (List.append_assoc ..).symm
      have hlen := r.length_encode
      have hpos : 8 ≤ r.recLen := by rw [Ext4DirEntry2.recLen]; omega
      have hnext : pre.length + r.recLen = (pre ++ r.encode).length := by
        rw [List.length_append, hlen]
      have hrec := r.recLen_encode pre (encodeAll records)
      rw [hall, scanDirectory, if_neg (by simp only [List.length_append, hlen]; omega)]
      dsimp only
      rw [if_neg, recordEntry_encode hchild, pure_bind, hrec, hnext, hassoc, ih _ _ (by simpa using hturns)]
      · rw [List.append_assoc]
        by_cases hlive : r.Live
        · rw [if_pos hlive, List.filter_cons_of_pos (by simpa using hlive)]
          rfl
        · rw [if_neg hlive, List.filter_cons_of_neg (by simpa using hlive)]
          rfl
      · rw [beq_iff_eq, ← UInt16.toNat_inj, hrec]
        exact (by omega : r.recLen ≠ 0)

theorem encodeAll_nil_iff {records : List Ext4DirEntry2} :
    (encodeAll records).length = 0 ↔ records = [] := by
  constructor
  · intro h
    cases records with
    | nil => rfl
    | cons r records =>
        have hlen := r.length_encode
        rw [encodeAll, List.flatMap_cons, List.length_append, hlen, Ext4DirEntry2.recLen] at h
        omega
  · rintro rfl
    rfl

theorem length_le_encodeAll (records : List Ext4DirEntry2) :
    records.length ≤ (encodeAll records).length := by
  induction records with
  | nil => exact le_rfl
  | cons r records ih =>
      rw [encodeAll, List.flatMap_cons, List.length_append, r.length_encode, ← encodeAll,
        Ext4DirEntry2.recLen, List.length_cons]
      omega

end Scan

def readable (dev : Device Id) (rd : Ext4Reader) (inodeNum : UInt32) : Option Ext4Inode :=
  (result (readInode dev rd inodeNum)).join

theorem readGroupDescriptor_returns (disk : Disk) (w : BlockDevice) (rd : Ext4Reader)
    (groupIdx : UInt32) : ∃ r, readGroupDescriptor (disk.device w) rd groupIdx = pure r := by
  rw [readGroupDescriptor]
  split
  · exact ⟨_, rfl⟩
  · dsimp only
    have hsize : (if rd.is64bit && rd.descSize ≥ 64 then 64 else 32 : UInt64).toNat < 2 ^ 63 := by
      split <;> decide
    obtain ⟨b, hb, _⟩ := disk.read_whole w _ hsize
    rw [hb]
    exact ⟨_, rfl⟩

theorem inodesPerGroup_ne_zero {dev : Device Id} {rd : Ext4Reader} {inodeNum : UInt32}
    {inode : Ext4Inode} (h : readInode dev rd inodeNum = pure (some inode)) :
    rd.sb.sInodesPerGroup ≠ 0 := by
  rintro hzero
  rw [readInode, hzero] at h
  split at h
  · exact nomatch pure_injective h
  · exact absurd h throw_ne_pure

theorem readInode_returns (disk : Disk) (w : BlockDevice) {rd : Ext4Reader}
    (hmounted : rd.mounted = true) (hgroup : rd.sb.sInodesPerGroup ≠ 0) (inodeNum : UInt32) :
    ∃ r, readInode (disk.device w) rd inodeNum = pure r := by
  have hsize : rd.inodeSize.toUInt64.toNat < 2 ^ 63 := by
    obtain ⟨hacc, _, hle⟩ := rd.geometry hmounted
    have hbs := (Accepted.bounds hacc).2
    have := UInt32.le_iff_toNat_le.mp hle
    rw [UInt32.toNat_toUInt64]
    omega
  rw [readInode]
  split
  · exact ⟨_, rfl⟩
  · obtain ⟨gd, hgd⟩ := readGroupDescriptor_returns disk w rd
      ((inodeNum - 1) / rd.sb.sInodesPerGroup)
    rw [if_neg (by simpa using hgroup)]
    dsimp only
    rw [hgd, pure_bind]
    cases gd with
    | none => exact ⟨_, rfl⟩
    | some gd =>
        obtain ⟨b, hb, _⟩ := disk.read_whole w _ hsize
        dsimp only
        rw [hb]
        exact ⟨_, rfl⟩

/-- One inode that could be read shows that no later read divides by zero. -/
theorem readInode_readable (disk : Disk) (w : BlockDevice) {rd : Ext4Reader}
    (hmounted : rd.mounted = true) {dirInodeNum : UInt32} {inode : Ext4Inode}
    (hinode : readInode (disk.device w) rd dirInodeNum = pure (some inode)) (inodeNum : UInt32) :
    readInode (disk.device w) rd inodeNum = pure (readable (disk.device w) rd inodeNum) := by
  obtain ⟨r, hr⟩ := readInode_returns disk w hmounted (inodesPerGroup_ne_zero hinode) inodeNum
  rw [readable, hr]
  cases r <;> rfl

theorem fileSize_directory {inode : Ext4Inode} (hdir : inode.iMode &&& sIfmt = sIfdir) :
    fileSize inode = inode.iSizeLo.toUInt64 := by
  rw [fileSize, hdir]
  rfl

theorem clippedSize_whole {inode : Ext4Inode} {size : UInt64} (hsize : fileSize inode = size) :
    clippedSize inode 0 size = size := by
  rw [clippedSize, hsize, UInt64.zero_add, if_neg (UInt64.lt_irrefl _)]

theorem readFileData_whole_iff {dev : Device Id} {rd : Ext4Reader} (hmounted : rd.mounted = true)
    (hdev : Whole dev rd.blockSize) {inodeNum : UInt32} {inode : Ext4Inode}
    (hinode : readInode dev rd inodeNum = pure (some inode)) {size : UInt64}
    (hsize : fileSize inode = size) (hne : size ≠ 0) {fuel : Nat} {buffer : List Byte}
    {r : ReadResult} :
    readFileData dev rd fuel inodeNum 0 (some buffer) size = pure r ∧ r.ok = true ↔
      ∃ out, copyLoop dev rd inode fuel fuel 0 size [] = pure (true, out) ∧
        out.length = size.toNat ∧ r = ⟨true, overlay out buffer, size⟩ := by
  have hbelow : ¬(0 : UInt64) ≥ fileSize inode := by
    rw [hsize]
    exact fun h => hne (UInt64.le_zero_iff.mp h)
  rw [readFileData_eq hmounted hinode _ _ _ hne, if_neg hbelow, clippedSize_whole hsize]
  constructor
  · rintro ⟨hrun, hok⟩
    obtain ⟨⟨ok, out⟩, hloop, hr⟩ := bind_eq_pure.mp hrun
    cases pure_injective hr
    dsimp only at hok
    subst hok
    obtain ⟨hout, _⟩ := (copyLoop_spec hdev (Accepted.bounds (rd.geometry hmounted).1).1
      (by rw [UInt64.toNat_zero, Nat.zero_add]; exact UInt64.toNat_lt _) hloop).2 rfl
    exact ⟨out, hloop, hout, rfl⟩
  · rintro ⟨out, hloop, _, rfl⟩
    exact ⟨bind_eq_pure.mpr ⟨_, hloop, rfl⟩, rfl⟩

theorem overlay_whole {out buffer : List Byte} (h : buffer.length ≤ out.length) :
    overlay out buffer = out := by
  rw [overlay, List.drop_of_length_le h, List.append_nil]

theorem readFileData_whole (disk : Disk) (w : BlockDevice) {rd : Ext4Reader}
    (hmounted : rd.mounted = true) {inodeNum : UInt32} {inode : Ext4Inode}
    (hinode : readInode (disk.device w) rd inodeNum = pure (some inode))
    (hlow : fileSize inode = inode.iSizeLo.toUInt64) {content : List Byte}
    (hsize : inode.iSizeLo.toNat = content.length) (hpos : 0 < content.length)
    {map : UInt32 → Option UInt64} {fuel : Nat} (hfuel : content.length < fuel)
    (hmap : ∀ pos < content.length,
      mapBlock (disk.device w) rd fuel inode (UInt32.ofNat (pos / rd.blockSize.toNat)) =
        pure (map (UInt32.ofNat (pos / rd.blockSize.toNat))))
    (hdata : ∀ pos (h : pos < content.length), IsFileByte (disk.device w) rd map pos content[pos])
    (buffer : List Byte) :
    readFileData (disk.device w) rd fuel inodeNum 0 (some buffer) inode.iSizeLo.toUInt64 =
      pure ⟨true, overlay content buffer, inode.iSizeLo.toUInt64⟩ := by
  have hdev := disk_whole disk w (rd.geometry hmounted).1
  have htotal : inode.iSizeLo.toUInt64.toNat = content.length := by
    rw [UInt32.toNat_toUInt64, hsize]
  have hsmall := inode.iSizeLo.toNat_lt
  have hcount : readCount inode 0 inode.iSizeLo.toUInt64 = content.length := by
    rw [readCount, hlow, htotal]
    exact Nat.min_self _
  have hrange : ∀ pos, (0 : UInt64).toNat ≤ pos →
      pos < (0 : UInt64).toNat + inode.iSizeLo.toUInt64.toNat →
      mapBlock (disk.device w) rd fuel inode (UInt32.ofNat (pos / rd.blockSize.toNat)) =
        pure (map (UInt32.ofNat (pos / rd.blockSize.toNat))) := by
    intro pos _ hlt
    rw [htotal] at hlt
    exact hmap pos (by simpa using hlt)
  obtain ⟨ok, out, hread, hbad, hgood⟩ := readFileData_reads hmounted hdev hinode hrange
    buffer (by omega) (by omega) (by rw [htotal]; simp; omega) (by omega)
    (by rw [hlow, UInt64.lt_iff_toNat_lt, htotal]; exact hpos)
  rw [hcount] at hbad hgood
  obtain rfl : ok = true := by
    refine Bool.of_not_eq_false fun hfalse => ?_
    obtain ⟨pos, _, hlt, hunreadable⟩ := hbad.mp hfalse
    exact (hdata pos (by simpa using hlt)).not_unreadable hunreadable
  obtain ⟨hlen, hbytes⟩ := hgood rfl
  have hout : out = content := by
    refine List.ext_getElem hlen fun pos hpos hpos' => ?_
    have hbyte := hbytes pos hpos
    rw [show (0 : UInt64).toNat + pos = pos from Nat.zero_add pos] at hbyte
    exact hbyte.unique (hdata pos hpos')
  rw [hread, hout, clippedSize_whole hlow]
  rfl

/-- The listing of a directory whose data are back-to-back records: those in use,
in their order. -/
theorem listDirectory_records (disk : Disk) (w : BlockDevice) (rd : Ext4Reader)
    (hmounted : rd.mounted = true) (dirInodeNum : UInt32) (inode : Ext4Inode)
    (hinode : readInode (disk.device w) rd dirInodeNum = pure (some inode))
    (hdir : inode.iMode &&& sIfmt = sIfdir) (records : List Ext4DirEntry2)
    (hsize : inode.iSizeLo.toNat = (encodeAll records).length) (map : UInt32 → Option UInt64)
    (hmap : ∀ pos < (encodeAll records).length, ∃ depth,
      mapBlock (disk.device w) rd depth inode (UInt32.ofNat (pos / rd.blockSize.toNat)) =
        pure (map (UInt32.ofNat (pos / rd.blockSize.toNat))))
    (hdata : ∀ pos (h : pos < (encodeAll records).length),
      IsFileByte (disk.device w) rd map pos (encodeAll records)[pos]) :
    ∃ depth, ∀ fuel ≥ depth, listDirectory (disk.device w) rd fuel dirInodeNum =
      pure (some ((records.filter (·.Live)).map (·.entry (readable (disk.device w) rd)))) := by
  have hchild := readInode_readable disk w hmounted hinode
  obtain ⟨bound, hbound⟩ := mapBlock_bounded
    (C := fun l => ∃ pos < (encodeAll records).length, UInt32.ofNat (pos / rd.blockSize.toNat) = l)
    (by rintro _ ⟨pos, hlt, rfl⟩; exact hmap pos hlt)
  refine ⟨max bound ((encodeAll records).length + 1), fun fuel hfuel => ?_⟩
  have hmap : ∀ pos < (encodeAll records).length,
      mapBlock (disk.device w) rd fuel inode (UInt32.ofNat (pos / rd.blockSize.toNat)) =
        pure (map (UInt32.ofNat (pos / rd.blockSize.toNat))) := fun pos hlt =>
    hbound fuel (by omega) _ ⟨pos, hlt, rfl⟩
  have htotal : inode.iSizeLo.toUInt64.toNat = (encodeAll records).length := by
    rw [UInt32.toNat_toUInt64, hsize]
  rw [listDirectory, hmounted, hinode]
  simp only [Bool.not_true, Bool.false_eq_true, if_false, pure_bind, hdir, bne_self_eq_false]
  by_cases hnone : records = []
  · rw [if_pos, hnone]
    · rfl
    · rw [beq_iff_eq, ← UInt64.toNat_inj, htotal, hnone]
      rfl
  · have hpos : 0 < (encodeAll records).length :=
      Nat.pos_of_ne_zero fun h => hnone (encodeAll_nil_iff.mp h)
    have hne : ¬(inode.iSizeLo.toUInt64 == 0) = true := by
      rw [beq_iff_eq, ← UInt64.toNat_inj, htotal]
      exact hpos.ne'
    have hturns : records.length < (encodeAll records).length + 1 :=
      Nat.lt_succ_of_le (length_le_encodeAll records)
    have hscan := scanDirectory_encode hchild records [] [] hturns
    rw [List.nil_append, List.nil_append] at hscan
    rw [if_neg hne, htotal, readFileData_whole disk w hmounted hinode (fileSize_directory hdir) hsize hpos
      (by omega) hmap hdata, pure_bind, overlay_whole (by rw [List.length_replicate])]
    simp only [Bool.not_true, Bool.false_eq_true, if_false]
    rw [htotal]
    exact congrArg (· >>= fun found => pure (some found)) hscan

/-- A dot, a deleted record, the directory a without a stored type, and a tail. -/
def typelessRecords : List Ext4DirEntry2 :=
  [⟨2, [dot], 2, [0, 0, 0], by decide, by decide, by decide⟩,
    ⟨0, [0x78], 1, [0, 0, 0], by decide, by decide, by decide⟩,
    ⟨11, [0x61], 0, [0, 0, 0], by decide, by decide, by decide⟩,
    ⟨0, [], 0xDE, List.replicate 980 0, by decide, by rw [List.length_replicate]; decide,
      by rw [List.length_replicate]; decide⟩]

def typelessDisk : Disk :=
  .ofPieces 16384
    [(2056, le32Bytes 5), (5248, le16Bytes 0x41ED ++ [0, 0] ++ le32Bytes 1024), (5288, le32Bytes 8),
      (6400, le16Bytes 0x41ED), (8192, encodeAll (typelessRecords.take 3)),
      (8232, [0xDC, 0x03, 0, 0xDE])]

def typelessDevice : Device Id := typelessDisk.device wholeDevice

def typelessInode : Ext4Inode :=
  (result (readInode typelessDevice (plainReader 16) 2)).join.getD (Packed.zero 160)

theorem typelessRecords_stored : readBlock typelessDevice 8 (plainReader 16).blockSize =
    pure (some (encodeAll typelessRecords)) :=
  result_eq_some.mp (by decide +kernel)

theorem listDirectory_records_typeless : ∃ depth, ∀ fuel ≥ depth,
    listDirectory typelessDevice (plainReader 16) fuel 2 =
      pure (some [⟨11, [0x61], 0, true, false⟩]) := by
  have hlength : (encodeAll typelessRecords).length = 1024 := by decide +kernel
  have hbs : (plainReader 16).blockSize.toNat = 1024 := rfl
  have hmap : ∀ pos < (encodeAll typelessRecords).length, ∃ depth,
      mapBlock typelessDevice (plainReader 16) depth typelessInode
        (UInt32.ofNat (pos / (plainReader 16).blockSize.toNat)) = pure (some 8) := by
    intro pos hpos
    rw [hbs, Nat.div_eq_of_lt (by omega)]
    exact ⟨0, result_eq_some.mp (by decide +kernel)⟩
  have hdata : ∀ pos (h : pos < (encodeAll typelessRecords).length),
      IsFileByte typelessDevice (plainReader 16) (fun _ => some 8) pos
        (encodeAll typelessRecords)[pos] := by
    intro pos hpos
    refine ⟨_, typelessRecords_stored, ?_⟩
    rw [hbs, Nat.mod_eq_of_lt (by omega), List.getElem?_eq_getElem hpos]
  obtain ⟨depth, hdepth⟩ := listDirectory_records typelessDisk wholeDevice (plainReader 16) rfl 2
    typelessInode (eq_pure_getD (by decide +kernel) _) (by decide +kernel) typelessRecords
    (by decide +kernel) (fun _ => some 8) hmap hdata
  have hentries : (typelessRecords.filter (·.Live)).map (·.entry (readable typelessDevice (plainReader 16))) =
      [⟨11, [0x61], 0, true, false⟩] := by decide +kernel
  refine ⟨depth, fun fuel hfuel => ?_⟩
  rw [← hentries]
  exact hdepth fuel hfuel

end Linux2Win.DirRecords
