import Linux2Win.Exports
import Linux2Win.ListedPaths
import Linux2Win.PieceReads

namespace Linux2Win.FileCommands

open Bytes Devices Ext4Types Reader FileData Directory Partitions Enumerator Programs ReadFile FileContent
  Listings ListedPaths Exports Gathers PieceReads

/-- The bytes of a file that the command writes to `std::cout`, which is a text stream and
may still turn each line feed into two bytes, and whether it complains that there is none. -/
structure Cat where
  written : List Byte
  notRegular : Bool
  deriving DecidableEq, Repr

section Operations

variable {m : Type → Type} [Monad m]

/-- The command from the mounted reader on. -/
def catFile (source : FileSource (ExceptT Fault m)) (filePath : Name) : ExceptT Fault m Cat := do
  match ← source.statPath filePath with
  | none => return ⟨[], true⟩
  | some st =>
    if !st.isRegular then return ⟨[], true⟩
    let r ← source.readFileByPath filePath 0 (some (List.replicate st.size.toNat 0)) st.size
    if !r.ok then return ⟨[], false⟩
    if r.buffer.length < r.bytesRead.toNat then throw .outOfBounds
    return ⟨r.buffer.take r.bytesRead.toNat, false⟩

/-- Only the first partition that matches is looked at. -/
def cmdCat (inspect : UInt32 → Option DiskInfo)
    (mount : PartitionInfo → ExceptT Fault m (Option (FileSource (ExceptT Fault m))))
    (diskIdx partIdx : UInt32) (filePath : Name) : ExceptT Fault m Cat := do
  match (inspect diskIdx).bind fun disk => disk.partitions.find? (cmdCatMatches partIdx) with
  | none => return ⟨[], false⟩
  | some part =>
    match ← mount part with
    | none => return ⟨[], false⟩
    | some source => catFile source filePath

end Operations

section Sources

variable {dev : Device Id} {rd : Ext4Reader} {fuel : Nat} {src : Name} {inodeNum : UInt32}
  {inode : Ext4Inode}

structure LeadsTo (dev : Device Id) (rd : Ext4Reader) (fuel : Nat) (src : Name) (inodeNum : UInt32)
    (inode : Ext4Inode) : Prop where
  mounted : rd.mounted = true
  lookup : lookupPath dev rd fuel src = pure (some inodeNum)
  reads : readInode dev rd inodeNum = pure (some inode)

theorem statInode_size {st : FileStat} (h : statInode dev rd fuel inodeNum = pure (some st)) :
    ∃ inode, readInode dev rd inodeNum = pure (some inode) ∧ st.size = fileSize inode := by
  rw [statInode] at h
  obtain ⟨inode, hinode, h⟩ := bind_eq_pure.mp h
  cases inode with
  | none => exact absurd (pure_injective h).symm (Option.some_ne_none _)
  | some inode =>
      refine ⟨inode, hinode, ?_⟩
      dsimp only at h
      split at h
      · obtain ⟨target, _, h⟩ := bind_eq_pure.mp h
        cases pure_injective h
        rfl
      · cases pure_injective h
        rfl

theorem leadsTo_of_stat {st : FileStat} (h : statPath dev rd fuel src = pure (some st)) :
    ∃ inodeNum inode, LeadsTo dev rd fuel src inodeNum inode ∧ st.size = fileSize inode := by
  obtain ⟨found, hlookup, h⟩ := bind_eq_pure.mp h
  cases found with
  | none => exact absurd (pure_injective h).symm (Option.some_ne_none _)
  | some inodeNum =>
      obtain ⟨inode, hread, hsize⟩ := statInode_size h
      exact ⟨inodeNum, inode, ⟨mounted_of_lookup hlookup, hlookup, hread⟩, hsize⟩

theorem readFileByPath_gathers (hdev : Whole dev rd.blockSize)
    (hleads : LeadsTo dev rd fuel src inodeNum inode) (offset size : UInt64) (buffer : List Byte)
    (hpos : 0 < size.toNat) (hin : offset.toNat + size.toNat ≤ (fileSize inode).toNat)
    (hsmall : size.toNat < 2 ^ 32) (hfuel : size.toNat < fuel) :
    readFileByPath dev rd fuel src offset (some buffer) size =
      (fun r => ⟨r.1, overlay r.2 buffer, if r.1 then size else 0⟩) <$>
        gather (fileByte dev rd inode fuel) offset.toNat size.toNat [] := by
  have hlt := (fileSize inode).toNat_lt
  have hsize : size ≠ 0 := fun h => by rw [h, UInt64.toNat_zero] at hpos; omega
  have hinside : ¬offset ≥ fileSize inode := by
    rw [ge_iff_le, UInt64.le_iff_toNat_le]
    omega
  have hclip : clippedSize inode offset size = size := by
    rw [clippedSize, if_neg]
    rw [gt_iff_lt, UInt64.lt_iff_toNat_lt, UInt64.toNat_add, Nat.mod_eq_of_lt (by omega)]
    omega
  rw [readFileByPath, hleads.lookup, pure_bind]
  dsimp only
  rw [readFileData_eq hleads.mounted hleads.reads fuel offset buffer hsize, if_neg hinside, hclip,
    copyLoop_gathers hdev (rd.geometry hleads.mounted).1.bounds.1 [] hsmall (by omega) hfuel,
    map_eq_pure_bind]

theorem overlay_take {bytes buffer : List Byte} {size : Nat} (h : bytes.length = size) :
    (overlay bytes buffer).take size = bytes := by
  rw [overlay, ← h, List.take_left]

theorem overlay_length (bytes buffer : List Byte) (h : bytes.length ≤ buffer.length) :
    (overlay bytes buffer).length = buffer.length := by
  rw [overlay, List.length_append, List.length_drop]
  omega

/-- A copy in chunks beside one read of what is left of the file: it writes the same
bytes, or it ends at a chunk that cannot be read. -/
inductive CopyOf (out : List Byte) (offset size : UInt64) :
    ExceptT Fault Id (Bool × List Byte) → ExceptT Fault Id (List Byte × UInt64) → Prop
  | fails (f : Fault) : CopyOf out offset size (throw f) (throw f)
  | whole (data : List Byte) : CopyOf out offset size (pure (true, data)) (pure (out ++ data, size))
  | ends (data written : List Byte) (offset' : UInt64) (before : offset' ≠ size)
      (written_le : written <+: data) (offset_eq : offset'.toNat = offset.toNat + written.length) :
      CopyOf out offset size (pure (false, data)) (pure (out ++ written, offset'))

theorem CopyOf.after {out bytes : List Byte} {offset next size : UInt64}
    {read : ExceptT Fault Id (Bool × List Byte)} {copy : ExceptT Fault Id (List Byte × UInt64)}
    (h : CopyOf (out ++ bytes) next size read copy) (hnext : next.toNat = offset.toNat + bytes.length) :
    CopyOf out offset size ((fun r => (r.1, bytes ++ r.2)) <$> read) copy := by
  cases h with
  | fails f => exact .fails f
  | whole data =>
      rw [List.append_assoc]
      exact .whole (bytes ++ data)
  | ends data written offset' before written_le offset_eq =>
      rw [List.append_assoc]
      refine .ends (bytes ++ data) (bytes ++ written) offset' before
        ((List.prefix_append_right_inj bytes).mpr written_le) ?_
      rw [offset_eq, hnext, List.length_append, Nat.add_assoc]

theorem exportLoop_copies (hdev : Whole dev rd.blockSize)
    (hleads : LeadsTo dev rd fuel src inodeNum inode) {size : UInt64} (hsize : size = fileSize inode)
    (turns : Nat) (offset : UInt64) (buf out : List Byte) (hbuf : buf.length = 65536)
    (hle : offset.toNat ≤ size.toNat) (hturns : size.toNat - offset.toNat < turns)
    (hfuel : size.toNat < fuel) :
    CopyOf out offset size
      (gather (fileByte dev rd inode fuel) offset.toNat (size.toNat - offset.toNat) [])
      (exportLoop (ext4Source dev rd fuel) src size turns offset buf out) := by
  induction turns generalizing offset buf out with
  | zero => omega
  | succ turns ih =>
      rw [exportLoop]
      by_cases hlt : offset < size
      · have hlt' := UInt64.lt_iff_toNat_lt.mp hlt
        have hchunk := chunk_toNat hlt'
        obtain ⟨toRead, htoRead⟩ : ∃ toRead, toRead = min 65536 (size - offset) := ⟨_, rfl⟩
        rw [← htoRead] at hchunk
        have hread := readFileByPath_gathers hdev hleads offset toRead buf
          (by omega) (by rw [← hsize]; omega) (by omega) (by omega)
        have hsplit : size.toNat - offset.toNat =
            toRead.toNat + (size.toNat - (offset.toNat + toRead.toNat)) := by
          omega
        have hnext : (offset + toRead).toNat = offset.toNat + toRead.toNat := by
          have := size.toNat_lt
          rw [UInt64.toNat_add, Nat.mod_eq_of_lt (by omega)]
        rw [if_neg (not_not_intro hlt), ← htoRead, hsplit, gather_add]
        change CopyOf out offset size _ (readFileByPath dev rd fuel src offset (some buf) toRead >>= _)
        rw [hread]
        rcases pure_or_throw (gather (fileByte dev rd inode fuel) offset.toNat toRead.toNat []) with
          ⟨⟨ok, bytes⟩, hrun⟩ | ⟨f, hrun⟩
        · have hlength := (gather_length hrun).2
          rw [List.length_nil, Nat.zero_add] at hlength
          rw [hrun, map_pure, pure_bind, pure_bind]
          cases ok with
          | false =>
              have hends : CopyOf out offset size (pure (false, bytes)) (pure (out ++ [], offset)) :=
                .ends bytes [] offset (fun h => by rw [h] at hlt'; omega) List.nil_prefix
                  (Nat.add_zero _).symm
              rw [List.append_nil] at hends
              exact hends
          | true =>
              have hbytes := hlength.mp rfl
              have hne : toRead ≠ 0 := fun h => by rw [h, UInt64.toNat_zero] at hchunk; omega
              have hover := overlay_length bytes buf (by omega)
              have hstop : ¬((!true || toRead == 0) = true) := by simpa using hne
              have hfits : ¬(overlay bytes buf).length < toRead.toNat := by omega
              have hmore := gather_out (fileByte dev rd inode fuel) (offset.toNat + toRead.toNat)
                (size.toNat - (offset.toNat + toRead.toNat)) bytes []
              rw [List.append_nil] at hmore
              dsimp only
              rw [if_pos rfl, if_pos rfl, if_neg hstop, if_neg hfits, overlay_take hbytes, hmore]
              refine CopyOf.after ?_ (by rw [hnext, hbytes])
              have hrest := ih (offset + toRead) (overlay bytes buf) (out ++ bytes) (by omega) (by omega)
                (by omega)
              rwa [hnext] at hrest
        · rw [hrun, map_throw]
          exact .fails f
      · have hend : offset = size := by
          rw [UInt64.lt_iff_toNat_lt] at hlt
          exact UInt64.toNat_inj.mp (by omega)
        have hwhole : CopyOf out size size (pure (true, [])) (pure (out ++ [], size)) := .whole []
        rw [List.append_nil] at hwhole
        rw [if_pos hlt, hend, Nat.sub_self]
        exact hwhole

theorem catFile_eq (hdev : Whole dev rd.blockSize) (hleads : LeadsTo dev rd fuel src inodeNum inode)
    {st : FileStat} (hstat : statPath dev rd fuel src = pure (some st)) (hregular : st.isRegular = true)
    (hsize : st.size = fileSize inode) (hsmall : st.size.toNat < 2 ^ 32) (hfuel : st.size.toNat < fuel) :
    catFile (ext4Source dev rd fuel) src =
      (fun r => ⟨if r.1 then r.2 else [], false⟩) <$>
        gather (fileByte dev rd inode fuel) 0 st.size.toNat [] := by
  have hcond : ¬(!st.isRegular) = true := by simp [hregular]
  rw [catFile]
  change statPath dev rd fuel src >>= _ = _
  rw [hstat, pure_bind]
  dsimp only
  rw [if_neg hcond]
  change readFileByPath dev rd fuel src 0 (some (List.replicate st.size.toNat 0)) st.size >>= _ = _
  rcases Nat.eq_zero_or_pos st.size.toNat with hzero | hpos
  · have hsize0 : st.size = 0 := UInt64.toNat_inj.mp hzero
    rw [hsize0, readFileByPath, hleads.lookup, pure_bind]
    dsimp only
    rw [readFileData, if_pos (by simp)]
    rfl
  · rw [readFileByPath_gathers hdev hleads 0 st.size _ hpos
      (by rw [UInt64.toNat_zero, Nat.zero_add, hsize]) hsmall hfuel]
    change (_ <$> gather (fileByte dev rd inode fuel) 0 st.size.toNat []) >>= _ = _
    rcases pure_or_throw (gather (fileByte dev rd inode fuel) 0 st.size.toNat []) with
      ⟨⟨ok, bytes⟩, hrun⟩ | ⟨f, hrun⟩
    · have hlength := (gather_length hrun).2
      rw [List.length_nil, Nat.zero_add] at hlength
      rw [hrun, map_pure, pure_bind, map_pure]
      cases ok with
      | false => rfl
      | true =>
          have hbytes := hlength.mp rfl
          have hover := overlay_length bytes (List.replicate st.size.toNat 0)
            (by rw [List.length_replicate]; omega)
          rw [List.length_replicate] at hover
          have hfits : ¬(overlay bytes (List.replicate st.size.toNat 0)).length < st.size.toNat := by
            omega
          dsimp only
          rw [if_neg (by simp), if_pos rfl, if_neg hfits, overlay_take hbytes, if_pos rfl]
    · rw [hrun, map_throw, map_throw]
      rfl

end Sources

theorem openPartition_source {m : Type → Type} [Monad m] [LawfulMonad m] {createFile : Bool → Bool}
    {raw : BlockDevice → Device Id} {fuel : Nat} {part : PartitionInfo}
    {source : FileSource (ExceptT Fault Id)}
    (h : openPartition createFile raw fuel part = pure (some source)) :
    ∃ w rd, source = ext4Source (raw w) rd fuel := by
  rw [openPartition] at h
  cases hopen : openReadOnly createFile part.startingOffset part.totalLength with
  | none =>
      rw [hopen] at h
      exact absurd (pure_injective h).symm (Option.some_ne_none _)
  | some w =>
      rw [hopen] at h
      obtain ⟨⟨ok, rd⟩, _, h⟩ := bind_eq_pure.mp h
      cases ok with
      | false => exact absurd (pure_injective h).symm (Option.some_ne_none _)
      | true => exact ⟨w, rd, (Option.some.inj (pure_injective h)).symm⟩

/-- Both commands fail together, or `cat` hands over what an export to the end of the file
writes, and nothing where the export ends early. -/
theorem cat_agrees_with_export (createFile : Bool → Bool) (disk : Disk) (fuel turns : Nat)
    (inspect : UInt32 → Option DiskInfo) (files : Destinations) (diskIdx partIdx : UInt32)
    (src dst : Name) (part : PartitionInfo)
    (hpart : ((inspect diskIdx).bind fun disk => disk.partitions.find? (cmdCatMatches partIdx)) =
      some part)
    (source : FileSource (ExceptT Fault Id))
    (hsource : openPartition createFile disk.device fuel part = pure (some source)) (st : FileStat)
    (hstat : source.statPath src = pure (some st)) (hregular : st.isRegular = true)
    (hopens : files.opens (dstPath files src dst) = true) (hsmall : st.size.toNat < 2 ^ 32)
    (hfuel : st.size.toNat < fuel) (hturns : st.size.toNat < turns) :
    (∃ f, cmdCat inspect (openPartition createFile disk.device fuel) diskIdx partIdx src = throw f ∧
        cmdExport inspect (openPartition createFile disk.device fuel) files turns diskIdx partIdx src
          dst = throw f) ∨
      ∃ shown e,
        cmdCat inspect (openPartition createFile disk.device fuel) diskIdx partIdx src = pure shown ∧
        cmdExport inspect (openPartition createFile disk.device fuel) files turns diskIdx partIdx src
          dst = pure e ∧
        e.offset.toNat = e.written.length ∧
        shown.written = if e.offset = st.size then e.written else [] := by
  obtain ⟨w, rd, rfl⟩ := openPartition_source (m := Id) hsource
  obtain ⟨inodeNum, inode, hleads, hsize⟩ := leadsTo_of_stat hstat
  have hdev := disk_whole disk w (rd.geometry hleads.mounted).1
  have hcat : cmdCat inspect (openPartition createFile disk.device fuel) diskIdx partIdx src =
      catFile (ext4Source (disk.device w) rd fuel) src := by
    rw [cmdCat, hpart]
    dsimp only
    rw [hsource, pure_bind]
  have hexport : cmdExport inspect (openPartition createFile disk.device fuel) files turns diskIdx
      partIdx src dst = exportFile (ext4Source (disk.device w) rd fuel) files turns src dst := by
    rw [cmdExport, hpart]
    dsimp only
    rw [hsource, pure_bind]
  have hcopy := exportLoop_copies hdev hleads hsize turns 0
    (List.replicate 65536 0) [] List.length_replicate (Nat.zero_le _) hturns hfuel
  rw [hcat, hexport, catFile_eq hdev hleads hstat hregular hsize hsmall hfuel,
    exportFile_regular hstat hregular, if_pos hopens]
  rw [UInt64.toNat_zero, Nat.sub_zero] at hcopy
  generalize hread : gather (fileByte (disk.device w) rd inode fuel) 0 st.size.toNat [] = read at hcopy ⊢
  generalize exportLoop (ext4Source (disk.device w) rd fuel) src st.size turns 0
    (List.replicate 65536 0) [] = copy at hcopy ⊢
  cases hcopy with
  | fails f =>
      refine Or.inl ⟨f, ?_, ?_⟩
      · rw [map_throw]
      · rfl
  | whole data =>
      have hlength := (gather_length hread).2.mp rfl
      rw [List.length_nil, Nat.zero_add] at hlength
      refine Or.inr ⟨_, _, map_pure _ _, pure_bind _ _, hlength.symm, ?_⟩
      rw [if_pos rfl, if_pos rfl]
      rfl
  | ends data written offset' before written_le offset_eq =>
      rw [UInt64.toNat_zero, Nat.zero_add] at offset_eq
      refine Or.inr ⟨_, _, map_pure _ _, pure_bind _ _, offset_eq, ?_⟩
      rw [if_neg before, if_neg Bool.false_ne_true]

section Example

def textDisk : Disk :=
  .ofPieces 16384
    [(1024, le32Bytes 16 ++ le32Bytes 16), (1056, le32Bytes 8192), (1064, le32Bytes 16),
      (1080, le16Bytes superblockMagic), (2056, le32Bytes 5),
      (5248, le16Bytes 0x41ED ++ [0, 0] ++ le32Bytes 1024), (5288, le32Bytes 8),
      (6400, le16Bytes 0x8180 ++ [0, 0] ++ le32Bytes 3), (6440, le32Bytes 9),
      (8192, le32Bytes 11 ++ le16Bytes 1024 ++ [1, 1, 0x66]), (9216, [0x61, 0x62, 0x63])]

def textPartition : PartitionInfo := layoutPartition (fun _ => []) 0 ⟨.mbr 0x83 false, 0, 16384, 1⟩

def textSource : FileSource (ExceptT Fault Id) :=
  (result (openPartition (fun _ => true) textDisk.device 4 textPartition)).join.getD
    ⟨fun _ => pure none, fun _ _ _ _ => pure ⟨false, [], 0⟩⟩

def textStat : FileStat :=
  ⟨11, 3, 0x8180, 0, 0, 0, 0, 0, 0, false, true, false, []⟩

def textInspect : UInt32 → Option DiskInfo := fun _ => some ⟨0, 16384, 512, false, [textPartition]⟩

theorem cat_agrees_with_export_text :
    (∃ f, cmdCat textInspect (openPartition (fun _ => true) textDisk.device 4) 0 1 [0x66] = throw f ∧
        cmdExport textInspect (openPartition (fun _ => true) textDisk.device 4) anyFile 4 0 1 [0x66]
          [0x67] = throw f) ∨
      ∃ shown e,
        cmdCat textInspect (openPartition (fun _ => true) textDisk.device 4) 0 1 [0x66] = pure shown ∧
        cmdExport textInspect (openPartition (fun _ => true) textDisk.device 4) anyFile 4 0 1 [0x66]
          [0x67] = pure e ∧
        e.offset.toNat = e.written.length ∧
        shown.written = if e.offset = 3 then e.written else [] :=
  cat_agrees_with_export (fun _ => true) textDisk 4 4 textInspect anyFile 0 1 [0x66] [0x67] textPartition
    rfl textSource (eq_pure_getD (by decide +kernel) _) textStat (result_eq_some.mp (by decide +kernel))
    rfl rfl (by decide) (by decide) (by decide)

end Example

end Linux2Win.FileCommands
