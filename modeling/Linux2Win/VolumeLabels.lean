import Linux2Win.Enumerator
import Linux2Win.Geometry
import Linux2Win.GuidTexts

namespace Linux2Win.VolumeLabels

open Bytes Devices Ext4Types Guids GuidTexts Reader Partitions Enumerator Programs Linux2Win.Geometry

def probeSize : UInt32 := 69632

def driveOf (disk : Disk) (geometry : Option (UInt64 × UInt32))
    (layout : Option (Bool × List PartitionEntry)) : PhysicalDrive :=
  ⟨geometry, layout, fun offset => disk.readFile offset probeSize⟩

def volumeName (rd : Ext4Reader) : List Byte := rd.sb.sVolumeName.takeWhile (· != 0)

def volumeUuid (rd : Ext4Reader) : List Byte := uuidText rd.sb.sUuid

section Texts

theorem undashed_uuidText (uuid : List Byte) : (uuidText uuid).filter (· != 0x2D) =
    (List.range 16).flatMap fun i => hexPadded 2 (byteAt uuid i).toNat := by
  rw [uuidText, List.filter_flatMap]
  congr 1
  funext i
  rw [List.filter_append, (byte_numeral _).filter_dash]
  split <;> rfl

theorem flatMap_pairs {is : List Nat} {f g : Nat → List Byte} (hf : ∀ i, (f i).length = 2)
    (hg : ∀ i, (g i).length = 2) (h : is.flatMap f = is.flatMap g) : ∀ i ∈ is, f i = g i := by
  induction is with
  | nil =>
      intro i hi
      cases hi
  | cons j is ih =>
      rw [List.flatMap_cons, List.flatMap_cons] at h
      obtain ⟨hfirst, hrest⟩ := List.append_inj h ((hf j).trans (hg j).symm)
      intro i hi
      rcases List.mem_cons.mp hi with rfl | hi
      · exact hfirst
      · exact ih hrest i hi

theorem uuidText_injective {uuid uuid' : List Byte} (hlen : uuid.length = 16) (hlen' : uuid'.length = 16)
    (h : uuidText uuid = uuidText uuid') : uuid = uuid' := by
  have hpairs := congrArg (List.filter (· != 0x2D)) h
  rw [undashed_uuidText, undashed_uuidText] at hpairs
  have hbytes := flatMap_pairs (fun _ => (byte_numeral _).length_eq) (fun _ => (byte_numeral _).length_eq) hpairs
  refine List.ext_getElem (hlen.trans hlen'.symm) fun i hi hi' => ?_
  have hbyte := hexPadded_injective (hbytes i (List.mem_range.mpr (by omega)))
  rwa [byteAt, byteAt, List.getD_eq_getElem?_getD, List.getD_eq_getElem?_getD,
    List.getElem?_eq_getElem hi, List.getElem?_eq_getElem hi'] at hbyte

end Texts

section Superblocks

variable {disk : Disk} {w : BlockDevice} {part : PartitionInfo} {buffer sector : List Byte}

theorem zeroPad_of_le {n : Nat} {b : List Byte} (h : n ≤ b.length) : zeroPad n b = b.take n := by
  rw [zeroPad, Nat.sub_eq_zero_of_le h, List.replicate_zero, List.append_nil]

theorem openReadOnly_fields {createFile : Bool → Bool} {partitionOffset partitionSize : UInt64}
    (h : openReadOnly createFile partitionOffset partitionSize = some w) :
    w.isOpen = true ∧ w.partitionOffset = partitionOffset := by
  rw [openReadOnly] at h
  split at h
  · cases Option.some.inj h
    exact ⟨rfl, rfl⟩
  · split at h
    · cases Option.some.inj h
      exact ⟨rfl, rfl⟩
    · cases h

theorem probeBuffer_eq_some {drive : PhysicalDrive} (h : probeBuffer drive part = some buffer) :
    drive.readAt part.startingOffset = some buffer ∧ 2048 ≤ buffer.length := by
  rw [probeBuffer] at h
  split at h
  · cases h
  · obtain ⟨hread, hlong⟩ := Option.filter_eq_some_iff.mp h
    exact ⟨hread, by simpa using hlong⟩

/-- The probe and the mount read the same superblock. -/
theorem probedSuperblock_read {geometry : Option (UInt64 × UInt32)}
    {layout : Option (Bool × List PartitionEntry)} (hw : w.partitionOffset = part.startingOffset)
    (hprobe : probeBuffer (driveOf disk geometry layout) part = some buffer)
    (hread : disk.device w superblockOffset 1024 = pure (some sector)) :
    sector = (probedSuperblock buffer).bytes := by
  obtain ⟨hbuffer, hlong⟩ := probeBuffer_eq_some hprobe
  change (disk.readPositions part.startingOffset probeSize).map (List.map disk.byte) = some buffer
    at hbuffer
  rw [Disk.readPositions] at hbuffer
  split at hbuffer
  · cases hbuffer
  · rename_i hreads
    cases Option.some.inj hbuffer
    obtain ⟨ps, hcopied, rfl⟩ := device_eq_some_iff.mp hread
    obtain ⟨rfl, -, -, -⟩ := copied_eq_some hcopied
    have hstart : part.startingOffset.toNat < 2 ^ 63 := by
      simp only [Bool.or_eq_true, decide_eq_true_eq, not_or, Nat.not_le] at hreads
      exact hreads.1
    have hoffset : (w.partitionOffset + superblockOffset).toNat = part.startingOffset.toNat + 1024 := by
      rw [hw, UInt64.toNat_add, Nat.mod_eq_of_lt]
      · rfl
      · change part.startingOffset.toNat + 1024 < _
        omega
    rw [List.length_map, List.length_range'] at hlong
    have hrange : ((List.range' part.startingOffset.toNat
        (min probeSize.toNat (disk.size - part.startingOffset.toNat))).drop 1024).take 1024 =
        List.range' (part.startingOffset.toNat + 1024) 1024 :=
      take_drop_range' _ _ _ _ (by rw [List.length_take, List.length_drop, List.length_range']; omega)
    have hbytes := congrArg (List.map disk.byte) hrange
    rw [List.map_take, List.map_drop] at hbytes
    change List.map disk.byte (List.range' (w.partitionOffset + superblockOffset).toNat 1024) =
      zeroPad 1024 (List.drop 1024 (List.map disk.byte _))
    rw [zeroPad_of_le, hbytes, hoffset]
    rw [List.length_drop, List.length_map, List.length_range']
    exact Nat.le_sub_of_add_le hlong

def Workable (sb : Ext4Superblock) : Prop :=
  ¬((1024 : UInt32) <<< sb.sLogBlockSize < 1024 ∨ (1024 : UInt32) <<< sb.sLogBlockSize > 65536) ∧
    sb.sBlocksPerGroup ≠ 0

theorem mount_of_read {dev : Device Id} {sb : Ext4Superblock}
    (hread : dev superblockOffset 1024 = pure (some sb.bytes)) (rd : Ext4Reader) :
    ∃ ok rd', mount dev true rd = pure (ok, rd') ∧ (ok = true ↔ sb.sMagic = superblockMagic ∧ Workable sb) ∧
      (ok = true → rd'.hasExtents = (sb.sFeatureIncompat &&& featureIncompatExtents != 0)) := by
  rw [mount, hread]
  simp only [Bool.not_true, Bool.false_eq_true, if_false, pure_bind, Packed.ofBytes_bytes]
  split
  · rename_i hmagic
    refine ⟨_, _, rfl, iff_of_false Bool.false_ne_true fun h => ?_, fun h => absurd h Bool.false_ne_true⟩
    simp [h.1] at hmagic
  · rename_i hmagic
    split
    · rename_i hrange
      exact ⟨_, _, rfl, iff_of_false Bool.false_ne_true fun h => h.2.1 hrange, fun h => absurd h Bool.false_ne_true⟩
    · rename_i hrange
      split
      · rename_i hbpg
        refine ⟨_, _, rfl, iff_of_false Bool.false_ne_true fun h => ?_, fun h => absurd h Bool.false_ne_true⟩
        exact h.2.2 (by simpa using hbpg)
      · rename_i hbpg
        exact ⟨_, _, rfl, iff_of_true rfl ⟨by simpa using hmagic, hrange, by simpa using hbpg⟩, fun _ => rfl⟩

theorem probe_of_mount {geometry : Option (UInt64 × UInt32)}
    {layout : Option (Bool × List PartitionEntry)} (hw : w.partitionOffset = part.startingOffset)
    (hprobe : probeBuffer (driveOf disk geometry layout) part = some buffer) {rd rd' : Ext4Reader}
    (hmount : mount (disk.device w) true rd = pure (true, rd')) :
    isExt (probeFilesystem buffer) = true := by
  obtain ⟨sector, hread, -⟩ := bind_eq_pure.mp hmount
  cases sector with
  | none =>
      rw [mount, hread] at hmount
      cases pure_injective hmount
  | some sector =>
      obtain rfl := probedSuperblock_read hw hprobe hread
      obtain ⟨ok, rd'', hmount', hiff, -⟩ := mount_of_read hread rd
      cases pure_injective (hmount.symm.trans hmount')
      exact (probe_isExt_iff buffer).mpr ⟨(probeBuffer_eq_some hprobe).2, (hiff.mp rfl).1⟩

theorem probed_fsType {drive : PhysicalDrive} (hprobe : probeBuffer drive part = some buffer) :
    (probePartitionFilesystem drive part).fsType = probeFilesystem buffer := by
  rw [probePartitionFilesystem, hprobe]
  dsimp only
  split
  · split <;> rfl
  · rfl

theorem probed_texts {drive : PhysicalDrive} (hprobe : probeBuffer drive part = some buffer)
    (hext : isExt (probeFilesystem buffer) = true) :
    (probePartitionFilesystem drive part).fsLabel =
        (probedSuperblock buffer).sVolumeName.takeWhile (· != 0) ∧
      (probePartitionFilesystem drive part).fsUuid = uuidText (probedSuperblock buffer).sUuid := by
  rw [probePartitionFilesystem, hprobe]
  dsimp only
  rw [if_pos hext]
  split <;> exact ⟨rfl, rfl⟩

theorem probe_ext4_iff (hlong : 2048 ≤ buffer.length)
    (hmagic : (probedSuperblock buffer).sMagic = superblockMagic) :
    probeFilesystem buffer = .ext4 ↔
      ((probedSuperblock buffer).sFeatureIncompat &&& featureIncompatExtents != 0) = true ∨
        ((probedSuperblock buffer).sFeatureIncompat &&& featureIncompat64Bit != 0) = true := by
  rw [probeFilesystem, if_neg (by omega)]
  dsimp only
  rw [if_pos (beq_iff_eq.mpr hmagic), ← Bool.or_eq_true]
  split
  · rename_i h
    exact iff_of_true rfl h
  · rename_i h
    refine iff_of_false ?_ h
    split <;> decide

end Superblocks

/-- What the scan shows of a partition is what the reader mounts there: a workable
filesystem mounts exactly if the scan knows it, under the same label and the same UUID,
which no other UUID is shown as. -/
theorem probe_agrees_with_mount (disk : Disk) (geometry : Option (UInt64 × UInt32))
    (layout : Option (Bool × List PartitionEntry)) (part : PartitionInfo) (createFile : Bool → Bool)
    (w : BlockDevice) (hopen : openReadOnly createFile part.startingOffset part.totalLength = some w)
    (buffer sector : List Byte)
    (hprobe : probeBuffer (driveOf disk geometry layout) part = some buffer)
    (hread : disk.device w superblockOffset 1024 = pure (some sector)) :
    ∃ ok rd, mount (disk.device w) w.isOpen initial = pure (ok, rd) ∧
      (ok = true ↔
        isExt (probePartitionFilesystem (driveOf disk geometry layout) part).fsType = true ∧
          Workable (probedSuperblock buffer)) ∧
      (ok = true →
        volumeName rd = (probePartitionFilesystem (driveOf disk geometry layout) part).fsLabel ∧
        volumeUuid rd = (probePartitionFilesystem (driveOf disk geometry layout) part).fsUuid ∧
        ((probePartitionFilesystem (driveOf disk geometry layout) part).fsType = .ext4 ↔
          rd.hasExtents = true ∨ rd.is64bit = true) ∧
        ∀ rd' : Ext4Reader,
          volumeUuid rd' = (probePartitionFilesystem (driveOf disk geometry layout) part).fsUuid →
            rd'.sb.sUuid = rd.sb.sUuid) := by
  obtain ⟨hisOpen, hoffset⟩ := openReadOnly_fields hopen
  obtain rfl := probedSuperblock_read hoffset hprobe hread
  obtain ⟨ok, rd, hmount, hiff, hextents⟩ := mount_of_read hread initial
  have hlong := (probeBuffer_eq_some hprobe).2
  have hext := probe_isExt_iff buffer
  rw [hisOpen]
  refine ⟨ok, rd, hmount, ?_, ?_⟩
  · rw [hiff, probed_fsType hprobe, hext]
    exact ⟨fun h => ⟨⟨hlong, h.1⟩, h.2⟩, fun h => ⟨h.1.2, h.2⟩⟩
  · rintro rfl
    have hmagic := (hiff.mp rfl).1
    have hfrom := mount_true hread hmount
    obtain ⟨hlabel, huuid⟩ := probed_texts hprobe (hext.mpr ⟨hlong, hmagic⟩)
    rw [hlabel, huuid, probed_fsType hprobe, probe_ext4_iff hlong hmagic, hextents rfl, hfrom.is64bit,
      volumeName, volumeUuid, hfrom.sb_eq]
    refine ⟨rfl, rfl, Iff.rfl, fun rd' h => ?_⟩
    exact uuidText_injective (Packed.field_length _ _ _ (by decide))
      (Packed.field_length _ _ _ (by decide)) h

def labelledDisk : Disk :=
  .ofPieces 4096
    [(1024, le32Bytes 16 ++ le32Bytes 16), (1056, le32Bytes 8192), (1080, le16Bytes superblockMagic),
      (1128, [1, 2, 3]), (1144, asciiBytes "data")]

def labelledPartition : PartitionInfo := layoutPartition (fun _ => []) 0 ⟨.mbr 0x83 false, 0, 4096, 1⟩

theorem probe_agrees_with_mount_labelled :
    ∃ ok rd, mount (labelledDisk.device (opened true 0 4096)) true initial = pure (ok, rd) ∧
      (ok = true → volumeName rd =
        (probePartitionFilesystem (driveOf labelledDisk none none) labelledPartition).fsLabel) := by
  obtain ⟨ok, rd, hmount, _, htexts⟩ := probe_agrees_with_mount labelledDisk none none labelledPartition
    (fun _ => true) (opened true 0 4096) rfl _ _ (Option.some_get (by decide +kernel)).symm
    (eq_pure_getD (by decide +kernel) [])
  exact ⟨ok, rd, hmount, fun h => (htexts h).1⟩

end Linux2Win.VolumeLabels
