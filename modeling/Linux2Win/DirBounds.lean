import Linux2Win.DirRecords
import Linux2Win.Walks

namespace Linux2Win.DirBounds

open Bytes Devices Ext4Types Reader FileData Directory Programs FileContent ReadFile DirRecords Walks

section Located

variable {m : Type → Type} [Monad m] (dev : Device m) (rd : Ext4Reader) (content : List Byte)
  (bytesRead : Nat)

/-- The loop of `list_directory` with each entry beside the offset of its record. -/
def locatedEntries : Nat → Nat → ExceptT Fault m (List (Nat × DirEntryInfo))
  | 0, _ => throw .outOfFuel
  | turns + 1, offset => do
      if bytesRead < offset + 8 then return []
      let recLen := le16 content (offset + 4)
      if recLen == 0 then return []
      let found ← recordEntry dev rd content offset
      let rest ← locatedEntries turns (offset + recLen.toNat)
      return found.toList.map (Prod.mk offset) ++ rest

theorem scanDirectory_located [LawfulMonad m] (turns offset : Nat) (entries : List DirEntryInfo) :
    scanDirectory dev rd content bytesRead turns offset entries =
      (fun located => entries ++ located.map Prod.snd) <$>
        locatedEntries dev rd content bytesRead turns offset := by
  induction turns generalizing offset entries with
  | zero => exact (map_throw _ _).symm
  | succ turns ih =>
      rw [scanDirectory, locatedEntries]
      split
      · rw [map_pure, List.map_nil, List.append_nil]
      · dsimp only
        split
        · rw [map_pure, List.map_nil, List.append_nil]
        · simp only [ih, map_eq_pure_bind, bind_assoc, pure_bind]
          refine bind_congr fun found => bind_congr fun rest => ?_
          simp only [List.map_append, List.map_map, List.append_assoc]
          congr 3
          cases found <;> rfl

end Located

section Records

variable (content : List Byte)

def recLen (offset : Nat) : Nat := (le16 content (offset + 4)).toNat

def nameLen (offset : Nat) : Nat := (byteAt content (offset + 6)).toNat

def recordName (offset : Nat) : Name := (content.drop (offset + 8)).take (nameLen content offset)

def InUse (offset : Nat) : Prop := le32 content offset ≠ 0 ∧ nameLen content offset ≠ 0

def IsDots (name : Name) : Prop := name = [dot] ∨ name = [dot, dot]

/-- The step from a record to the next one: none from where no header fits, or where
the stored length is zero. -/
def nextRecord (offset : Nat) : Option Nat :=
  if content.length < offset + 8 then none
  else if recLen content offset = 0 then none
  else some (offset + recLen content offset)

/-- A name read from the data is within them, and one that is shown within its record. -/
def NameFits (offset : Nat) : Prop :=
  InUse content offset → offset + 8 + nameLen content offset ≤ content.length ∧
    (¬IsDots (recordName content offset) → 8 + nameLen content offset ≤ recLen content offset)

/-- The names fit in all records that follow from the first by their lengths. -/
def RecordsFit : Prop :=
  Along (nextRecord content)
    (fun offset => (nextRecord content offset).isSome = true → NameFits content offset) (some 0)

def EntryInside (p : Nat × DirEntryInfo) : Prop :=
  8 + p.2.name.length ≤ recLen content p.1 ∧ p.1 + 8 + p.2.name.length ≤ content.length

/-- The loop ends, it reads no byte outside of the data, and the names that it returns
lie in their records. -/
def ScanInside (dev : Device Id) (rd : Ext4Reader) : Prop :=
  ∃ located, locatedEntries dev rd content content.length (content.length + 1) 0 = pure located ∧
    ∀ p ∈ located, EntryInside content p

end Records

section Scan

variable {dev : Device Id} {rd : Ext4Reader} {child : UInt32 → Option Ext4Inode} {content : List Byte}

theorem dirEntry_named (hchild : ∀ n, readInode dev rd n = pure (child n)) (inode : UInt32)
    (name : Name) (fileType : Byte) :
    ∃ e, dirEntry dev rd inode name fileType = pure e ∧ e.name = name := by
  rw [dirEntry]
  by_cases h : fileType = 0
  · simp only [h, beq_self_eq_true, if_true, hchild, pure_bind]
    cases child inode <;> exact ⟨_, rfl, rfl⟩
  · simp only [beq_iff_eq, h, if_false]
    exact ⟨_, rfl, rfl⟩

instance (name : Name) : Decidable (IsDots name) :=
  inferInstanceAs (Decidable (name = [dot] ∨ name = [dot, dot]))

instance (offset : Nat) : Decidable (InUse content offset) :=
  inferInstanceAs (Decidable (le32 content offset ≠ 0 ∧ nameLen content offset ≠ 0))

theorem recordEntry_eq {m : Type → Type} [Monad m] [LawfulMonad m] (dev : Device m) (rd : Ext4Reader)
    (content : List Byte) (offset : Nat) :
    recordEntry dev rd content offset =
      if ¬InUse content offset then pure none
      else if content.length < offset + 8 + nameLen content offset then throw .outOfBounds
      else if IsDots (recordName content offset) then pure none
      else some <$> dirEntry dev rd (le32 content offset) (recordName content offset)
        (byteAt content (offset + 7)) := by
  have huse : (le32 content offset == 0 || byteAt content (offset + 6) == 0) = true ↔
      ¬InUse content offset := by
    rw [Bool.or_eq_true, beq_iff_eq, beq_iff_eq, ← UInt8.toNat_inj, InUse, not_and_or, not_not,
      not_not]
    rfl
  have hdots : (recordName content offset == [dot] || recordName content offset == [dot, dot]) = true ↔
      IsDots (recordName content offset) := by
    rw [Bool.or_eq_true, beq_iff_eq, beq_iff_eq, IsDots]
  rw [recordEntry]
  apply if_congr huse rfl
  by_cases hout : content.length < offset + 8 + nameLen content offset
  · rw [if_pos hout]
    exact (if_pos hout).trans (throw_bind _ _)
  · rw [if_neg hout]
    exact (if_neg hout).trans (if_congr hdots rfl (map_eq_pure_bind _ _).symm)

variable (content) in
theorem recordEntry_cases (hchild : ∀ n, readInode dev rd n = pure (child n)) (offset : Nat) :
    (¬InUse content offset ∧ recordEntry dev rd content offset = pure none) ∨
      (InUse content offset ∧ content.length < offset + 8 + nameLen content offset ∧
        recordEntry dev rd content offset = throw .outOfBounds) ∨
      InUse content offset ∧ offset + 8 + nameLen content offset ≤ content.length ∧
        (IsDots (recordName content offset) ∧ recordEntry dev rd content offset = pure none ∨
          ¬IsDots (recordName content offset) ∧
            ∃ e, recordEntry dev rd content offset = pure (some e) ∧
              e.name = recordName content offset) := by
  rw [recordEntry_eq]
  by_cases huse : InUse content offset
  · apply Or.inr
    rw [if_neg (not_not.mpr huse)]
    by_cases hout : content.length < offset + 8 + nameLen content offset
    · exact Or.inl ⟨huse, hout, if_pos hout⟩
    · refine Or.inr ⟨huse, Nat.not_lt.mp hout, ?_⟩
      rw [if_neg hout]
      by_cases hdots : IsDots (recordName content offset)
      · exact Or.inl ⟨hdots, if_pos hdots⟩
      · obtain ⟨e, he, hname⟩ := dirEntry_named hchild (le32 content offset)
          (recordName content offset) (byteAt content (offset + 7))
        rw [if_neg hdots, he]
        exact Or.inr ⟨hdots, e, rfl, hname⟩
  · exact Or.inl ⟨huse, if_pos huse⟩

theorem recordName_length {offset : Nat} (h : offset + 8 + nameLen content offset ≤ content.length) :
    (recordName content offset).length = nameLen content offset := by
  rw [recordName, List.length_take, List.length_drop]
  omega

theorem recordEntry_fits (hchild : ∀ n, readInode dev rd n = pure (child n)) (offset : Nat) :
    (∃ found, recordEntry dev rd content offset = pure found ∧
      ∀ e ∈ found, EntryInside content (offset, e)) ↔ NameFits content offset := by
  rcases recordEntry_cases content hchild offset with ⟨huse, hrun⟩ |
    ⟨huse, hout, hrun⟩ | ⟨huse, hin, ⟨hdots, hrun⟩ | ⟨hdots, e, hrun, hname⟩⟩
  · exact iff_of_true ⟨none, hrun, by simp⟩ fun h => absurd h huse
  · refine iff_of_false ?_ fun h => absurd (h huse).1 (by omega)
    rintro ⟨found, hfound, _⟩
    exact throw_ne_pure (hrun.symm.trans hfound)
  · exact iff_of_true ⟨none, hrun, by simp⟩ fun _ => ⟨hin, fun h => absurd hdots h⟩
  · have hlen := recordName_length hin
    constructor
    · rintro ⟨found, hfound, hall⟩ _
      cases pure_injective (hrun.symm.trans hfound)
      obtain ⟨hrec, _⟩ := hall e rfl
      dsimp only at hrec
      rw [hname, hlen] at hrec
      exact ⟨hin, fun _ => hrec⟩
    · intro h
      refine ⟨some e, hrun, ?_⟩
      rintro _ ⟨⟩
      rw [EntryInside, hname, hlen]
      exact ⟨(h huse).2 hdots, hin⟩

theorem locatedEntries_succ (turns offset : Nat) :
    locatedEntries dev rd content content.length (turns + 1) offset =
      (nextRecord content offset).elim (pure []) fun next =>
        recordEntry dev rd content offset >>= fun found =>
          (found.toList.map (Prod.mk offset) ++ ·) <$>
            locatedEntries dev rd content content.length turns next := by
  rw [locatedEntries, nextRecord]
  by_cases hend : content.length < offset + 8
  · rw [if_pos hend, if_pos hend]
    rfl
  · rw [if_neg hend, if_neg hend]
    by_cases hzero : recLen content offset = 0
    · rw [if_pos hzero]
      apply if_pos
      rw [beq_iff_eq, ← UInt16.toNat_inj]
      exact hzero
    · rw [if_neg hzero]
      refine (if_neg ?_).trans rfl
      rw [beq_iff_eq, ← UInt16.toNat_inj]
      exact hzero

theorem nextRecord_gt {offset next : Nat} (h : nextRecord content offset = some next) :
    offset + 8 ≤ content.length ∧ offset < next := by
  rw [nextRecord] at h
  split at h
  · cases h
  · split at h
    · cases h
    · cases h
      omega

theorem locatedEntries_inside (hchild : ∀ n, readInode dev rd n = pure (child n)) {turns offset : Nat}
    (hpos : 0 < turns) (hturns : content.length < offset + turns) :
    (∃ located, locatedEntries dev rd content content.length turns offset = pure located ∧
        ∀ p ∈ located, EntryInside content p) ↔
      Along (nextRecord content) (fun o => (nextRecord content o).isSome = true → NameFits content o)
        (some offset) := by
  induction turns generalizing offset with
  | zero => exact absurd hpos (Nat.lt_irrefl 0)
  | succ turns ih =>
      rw [locatedEntries_succ, along_some]
      cases hnext : nextRecord content offset with
      | none => exact iff_of_true ⟨[], rfl, by simp⟩ ⟨by simp, along_none⟩
      | some next =>
          obtain ⟨hle, hlt⟩ := nextRecord_gt hnext
          rw [← ih (by omega) (by omega), Option.isSome_some, forall_prop_of_true rfl,
            ← recordEntry_fits hchild]
          constructor
          · rintro ⟨located, hrun, hall⟩
            obtain ⟨found, hfound, hrun⟩ := bind_eq_pure.mp hrun
            rw [map_eq_pure_bind] at hrun
            obtain ⟨rest, hrest, hrun⟩ := bind_eq_pure.mp hrun
            cases pure_injective hrun
            refine ⟨⟨found, hfound, fun e he => hall _ ?_⟩, rest, hrest, fun p hp => hall p ?_⟩
            · exact List.mem_append_left _ (List.mem_map_of_mem (Option.mem_toList.mpr he))
            · exact List.mem_append_right _ hp
          · rintro ⟨⟨found, hfound, hhead⟩, rest, hrest, htail⟩
            refine ⟨found.toList.map (Prod.mk offset) ++ rest, ?_, ?_⟩
            · rw [Option.elim_some, hfound, pure_bind, hrest, map_pure]
            · intro p hp
              rcases List.mem_append.mp hp with h | h
              · obtain ⟨e, he, rfl⟩ := List.mem_map.mp h
                exact hhead e (Option.mem_toList.mp he)
              · exact htail p h

end Scan

/-- The names of a directory are read inside its data, and returned out of their own
records, exactly when they fit there in every record that the lengths lead to. -/
theorem scanInside_iff (disk : Disk) (w : BlockDevice) (rd : Ext4Reader)
    (hmounted : rd.mounted = true) (dirInodeNum : UInt32) (inode : Ext4Inode)
    (hinode : readInode (disk.device w) rd dirInodeNum = pure (some inode)) (content : List Byte) :
    ScanInside content (disk.device w) rd ↔ RecordsFit content :=
  locatedEntries_inside (readInode_readable disk w hmounted hinode) (Nat.succ_pos _) (by omega)

theorem listDirectory_located (disk : Disk) (w : BlockDevice) {rd : Ext4Reader}
    (hmounted : rd.mounted = true) {dirInodeNum : UInt32} {inode : Ext4Inode}
    (hinode : readInode (disk.device w) rd dirInodeNum = pure (some inode))
    (hdir : inode.iMode &&& sIfmt = sIfdir) (hsize : inode.iSizeLo ≠ 0) {fuel : Nat} {r : ReadResult}
    (hread : readFileData (disk.device w) rd fuel dirInodeNum 0
      (some (List.replicate inode.iSizeLo.toUInt64.toNat 0)) inode.iSizeLo.toUInt64 = pure r)
    (hok : r.ok = true) :
    listDirectory (disk.device w) rd fuel dirInodeNum =
      (fun located => some (located.map Prod.snd)) <$>
        locatedEntries (disk.device w) rd r.buffer r.buffer.length (r.buffer.length + 1) 0 := by
  have hne : inode.iSizeLo.toUInt64 ≠ 0 := fun h => hsize (UInt32.toUInt64_inj.mp h)
  have hlen : r.buffer.length = r.bytesRead.toNat := by
    obtain ⟨out, _, hout, rfl⟩ := (readFileData_whole_iff hmounted
      (disk_whole disk w (rd.geometry hmounted).1) hinode (fileSize_directory hdir) hne).mp ⟨hread, hok⟩
    rw [overlay_whole (by rw [List.length_replicate, hout]), hout]
  rw [listDirectory, hmounted, hinode]
  simp only [Bool.not_true, Bool.false_eq_true, if_false, pure_bind, hdir, bne_self_eq_false]
  rw [if_neg (by rwa [beq_iff_eq]), hread, pure_bind, hok, ← hlen, scanDirectory_located]
  simp only [Bool.not_true, Bool.false_eq_true, if_false, List.nil_append, map_eq_pure_bind, bind_assoc,
    pure_bind]

/-- The last record of the root starts 8 bytes before the end of the data, and claims a
name of four bytes. -/
def overrunContent : List Byte :=
  le32Bytes 2 ++ le16Bytes 1016 ++ [1, 2, dot] ++ List.replicate 1007 0 ++
    (le32Bytes 11 ++ le16Bytes 8 ++ [4, 1])

def overrunDisk : Disk :=
  .ofPieces 16384
    [(2056, le32Bytes 5), (5248, le16Bytes 0x41ED ++ [0, 0] ++ le32Bytes 1024), (5288, le32Bytes 8),
      (8192, le32Bytes 2 ++ le16Bytes 1016 ++ [1, 2, dot]), (9208, le32Bytes 11 ++ le16Bytes 8 ++ [4, 1])]

def overrunDevice : Device Id := overrunDisk.device wholeDevice

def overrunInode : Ext4Inode :=
  (result (readInode overrunDevice (plainReader 16) 2)).join.getD (Packed.zero 160)

theorem overrunInode_read : readInode overrunDevice (plainReader 16) 2 = pure (some overrunInode) :=
  eq_pure_getD (by decide +kernel) _

theorem scanInside_iff_overrun :
    ScanInside overrunContent overrunDevice (plainReader 16) ↔ RecordsFit overrunContent :=
  scanInside_iff overrunDisk wholeDevice (plainReader 16) rfl 2 overrunInode overrunInode_read
    overrunContent

theorem name_read_past_data :
    readFileData overrunDevice (plainReader 16) 3 2 0 (some (List.replicate 1024 0)) 1024 =
        pure ⟨true, overrunContent, 1024⟩ ∧
      listDirectory overrunDevice (plainReader 16) 3 2 = throw .outOfBounds ∧
      ¬ScanInside overrunContent overrunDevice (plainReader 16) := by
  have hscan : locatedEntries overrunDevice (plainReader 16) overrunContent overrunContent.length
      (overrunContent.length + 1) 0 = throw .outOfBounds := fault_eq_some.mp (by decide +kernel)
  refine ⟨result_eq_some.mp (by decide +kernel), fault_eq_some.mp (by decide +kernel), ?_⟩
  rintro ⟨located, hrun, _⟩
  exact throw_ne_pure (hscan.symm.trans hrun)

end Linux2Win.DirBounds
