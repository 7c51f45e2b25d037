import Linux2Win.Enumerator

namespace Linux2Win.SystemPartitions

open Bytes Ext4Types Guids Partitions Enumerator

def documentedEfi : Guid :=
  ⟨0xC12A7328, 0xF81F, 0x11D2, [0xBA, 0x4B, 0x00, 0xA0, 0xC9, 0x3E, 0xC9, 0x3B], rfl⟩

def documentedBiosBoot : Guid :=
  ⟨0x21686148, 0x6449, 0x6E6F, [0x74, 0x4E, 0x65, 0x65, 0x64, 0x45, 0x46, 0x49], rfl⟩

def documentedLinuxBoot : Guid :=
  ⟨0xBC13C2FF, 0x59E6, 0x4262, [0xA3, 0x52, 0xB2, 0x75, 0xFD, 0x6F, 0x71, 0x72], rfl⟩

def documentedLinuxSwap : Guid :=
  ⟨0x0657FD6D, 0xA4AB, 0x43C4, [0x84, 0xE5, 0x09, 0x33, 0xC8, 0x4B, 0x4F, 0x4F], rfl⟩

/-- The type that Windows gives its reserved partition. The constant of the source
is another value. -/
def documentedMSR : Guid :=
  ⟨0xE3C9E316, 0x0B5C, 0x4DB8, [0x81, 0x7D, 0xF9, 0x2D, 0xF0, 0x02, 0x15, 0xAE], rfl⟩

def documentedRecovery : Guid :=
  ⟨0xDE94BBA4, 0x06D1, 0x4D40, [0xA1, 0x6A, 0xBF, 0xD5, 0x01, 0x79, 0xD6, 0xAC], rfl⟩

def documentedSystemGuids : List Guid :=
  [documentedEfi, documentedBiosBoot, documentedLinuxBoot, documentedLinuxSwap, documentedMSR,
    documentedRecovery]

/-- A partition whose on-disk type is one of the boot, swap, reserved or recovery types.
What the source takes for the reserved type counts as well. -/
def SystemType (part : PartitionInfo) : Prop :=
  if part.isGpt then part.gptTypeGuid = windowsMSR ∨ part.gptTypeGuid ∈ documentedSystemGuids
  else part.mbrType ∈ [(0x82 : UInt8), 0xEF, 0x27]

structure Sound (parts : List PartitionInfo) : Prop where
  agrees : ∀ p ∈ parts, p.isDataPartition = isSafeDataPartition p.kind
  disjoint : ∀ p ∈ parts, ¬(p.isDataPartition = true ∧ isExcludedSystemPartition p.kind = true)
  system : ∀ p ∈ parts, SystemType p → p.isDataPartition = false
  guards : ∀ p ∈ parts, cmdMountRefuses p = !isMountable p ∧ cmdLsRefuses p = !isMountable p ∧
    cmdCatMatches p.partitionNumber p = isMountable p

structure Classified (part : PartitionInfo) : Prop where
  agrees : part.isDataPartition = isSafeDataPartition part.kind
  gpt : part.isGpt = true → part.kind = classifyGpt part.gptTypeGuid
  mbr : part.isGpt = false → part.kind = classifyMbr part.mbrType part.isBootable

theorem layoutPartition_classified (toUtf8 : List UInt16 → List Byte) (diskIndex : UInt32)
    (entry : PartitionEntry) : Classified (layoutPartition toUtf8 diskIndex entry) := by
  unfold layoutPartition
  cases entry.style with
  | mbr type boot => exact ⟨rfl, nofun, fun _ => rfl⟩
  | gpt type id attributes name => exact ⟨rfl, fun _ => rfl, nofun⟩
  | raw => exact ⟨rfl, nofun, fun _ => rfl⟩

def ProbesAsExt (drive : PhysicalDrive) (part : PartitionInfo) : Prop :=
  ∃ buffer, probeBuffer drive part = some buffer ∧ isExt (probeFilesystem buffer) = true

theorem probe_cases (drive : PhysicalDrive) (part : PartitionInfo) :
    let probed := probePartitionFilesystem drive part
    probed.isGpt = part.isGpt ∧ probed.gptTypeGuid = part.gptTypeGuid ∧
      probed.mbrType = part.mbrType ∧
      ((ProbesAsExt drive part ∧ part.kind = .unknown ∧ probed.kind = .linuxData ∧
          probed.isDataPartition = true) ∨
        (¬(ProbesAsExt drive part ∧ part.kind = .unknown) ∧ probed.kind = part.kind ∧
          probed.isDataPartition = part.isDataPartition)) := by
  unfold probePartitionFilesystem ProbesAsExt
  cases hb : probeBuffer drive part with
  | none => simp
  | some buffer =>
      dsimp only
      by_cases hext : isExt (probeFilesystem buffer) = true
      · by_cases hk : part.kind = .unknown <;> simp [hext, hk]
      · simp [hext]

theorem probe_agrees {drive : PhysicalDrive} {part : PartitionInfo} (h : Classified part) :
    (probePartitionFilesystem drive part).isDataPartition =
      isSafeDataPartition (probePartitionFilesystem drive part).kind := by
  obtain ⟨_, _, _, ⟨_, _, hk, hd⟩ | ⟨_, hk, hd⟩⟩ := probe_cases drive part
  · rw [hk, hd]; rfl
  · rw [hk, hd, h.agrees]

theorem source_constants : documentedEfi = efiSystemPartition ∧ documentedBiosBoot = biosBoot ∧
    documentedLinuxBoot = linuxBoot ∧ documentedLinuxSwap = linuxSwap ∧
    documentedRecovery = windowsRecovery := by
  decide +kernel

theorem classifyGpt_documentedMSR : classifyGpt documentedMSR = .unknown := by decide +kernel

theorem excluded_ite {p : Prop} [Decidable p] {a b : PartitionKind}
    (ha : isExcludedSystemPartition a = true) (hb : ¬p → isExcludedSystemPartition b = true) :
    isExcludedSystemPartition (if p then a else b) = true := by
  by_cases hp : p
  · rwa [if_pos hp]
  · rw [if_neg hp]; exact hb hp

theorem excluded_of_mem {g : Guid}
    (h : g ∈ [efiSystemPartition, biosBoot, linuxBoot, linuxSwap, windowsMSR, windowsRecovery]) :
    isExcludedSystemPartition (classifyGpt g) = true := by
  simp only [List.mem_cons, List.not_mem_nil, or_false] at h
  refine excluded_ite rfl fun h1 => excluded_ite rfl fun h2 => excluded_ite rfl fun h3 =>
    excluded_ite rfl fun h4 => excluded_ite rfl fun h5 => excluded_ite rfl fun h6 => ?_
  tauto

theorem excluded_of_mbr {type : UInt8} (boot : Bool) (h : type ∈ [(0x82 : UInt8), 0xEF, 0x27]) :
    isExcludedSystemPartition (classifyMbr type boot) = true := by
  simp only [List.mem_cons, List.not_mem_nil, or_false] at h
  rcases h with rfl | rfl | rfl <;> rfl

theorem excluded_of_systemType {part : PartitionInfo} (hc : Classified part) (h : SystemType part)
    (hmsr : ¬(part.isGpt = true ∧ part.gptTypeGuid = documentedMSR)) :
    isExcludedSystemPartition part.kind = true := by
  unfold SystemType at h
  cases hg : part.isGpt with
  | false =>
      rw [hg] at h
      rw [hc.mbr hg]
      exact excluded_of_mbr part.isBootable h
  | true =>
      rw [hg] at h hmsr
      rw [hc.gpt hg]
      apply excluded_of_mem
      obtain ⟨h1, h2, h3, h4, h6⟩ := source_constants
      simp only [if_true, documentedSystemGuids, h1, h2, h3, h4, h6, List.mem_cons,
        List.not_mem_nil, or_false] at h ⊢
      simp only [true_and] at hmsr
      tauto

/-- A layout entry whose first bytes carry the superblock magic of ext2, ext3 and ext4. -/
def CarriesExt (drive : PhysicalDrive) (entry : PartitionEntry) : Prop :=
  4096 ≤ entry.partitionLength ∧ ∃ buffer, drive.readAt entry.startingOffset = some buffer ∧
    2048 ≤ buffer.length ∧ (probedSuperblock buffer).sMagic = superblockMagic

def IsDocumentedMSR (entry : PartitionEntry) : Prop :=
  ∃ id attributes name, entry.style = .gpt documentedMSR id attributes name

theorem layoutPartition_extent (toUtf8 : List UInt16 → List Byte) (diskIndex : UInt32)
    (entry : PartitionEntry) :
    (layoutPartition toUtf8 diskIndex entry).totalLength = entry.partitionLength ∧
      (layoutPartition toUtf8 diskIndex entry).startingOffset = entry.startingOffset := by
  unfold layoutPartition
  cases entry.style <;> exact ⟨rfl, rfl⟩

theorem probesAsExt_iff (toUtf8 : List UInt16 → List Byte) (drive : PhysicalDrive)
    (diskIndex : UInt32) (entry : PartitionEntry) :
    ProbesAsExt drive (layoutPartition toUtf8 diskIndex entry) ↔ CarriesExt drive entry := by
  obtain ⟨hl, ho⟩ := layoutPartition_extent toUtf8 diskIndex entry
  unfold ProbesAsExt CarriesExt probeBuffer
  rw [hl, ho]
  by_cases hsmall : entry.partitionLength < 4096
  · simp [hsmall, UInt64.not_le.mpr hsmall]
  · have hbig := UInt64.not_lt.mp hsmall
    simp only [hsmall, if_false, hbig, true_and, Option.filter_eq_some_iff, decide_eq_true_eq,
      probe_isExt_iff]
    refine exists_congr fun buffer => ?_
    tauto

theorem layoutPartition_documentedMSR (toUtf8 : List UInt16 → List Byte) (diskIndex : UInt32)
    (entry : PartitionEntry) :
    (layoutPartition toUtf8 diskIndex entry).isGpt = true ∧
        (layoutPartition toUtf8 diskIndex entry).gptTypeGuid = documentedMSR ↔
      IsDocumentedMSR entry := by
  unfold layoutPartition IsDocumentedMSR
  cases entry.style with
  | mbr type boot => simp
  | raw => simp
  | gpt type id attributes name =>
      simp only [true_and, PartitionStyle.gpt.injEq]
      exact ⟨fun h => ⟨_, _, _, h, rfl, rfl, rfl⟩, fun ⟨_, _, _, h, _⟩ => h⟩

theorem guards_agree {part : PartitionInfo}
    (h : part.isDataPartition = isSafeDataPartition part.kind) :
    cmdMountRefuses part = !isMountable part ∧ cmdLsRefuses part = !isMountable part ∧
      cmdCatMatches part.partitionNumber part = isMountable part := by
  unfold cmdMountRefuses cmdLsRefuses cmdCatMatches isMountable
  rw [h]
  cases part.kind <;> simp [isSafeDataPartition, isExcludedSystemPartition]

theorem probed_system_iff {drive : PhysicalDrive} {part : PartitionInfo} (hc : Classified part)
    (hs : SystemType part) : (probePartitionFilesystem drive part).isDataPartition = true ↔
      (part.isGpt = true ∧ part.gptTypeGuid = documentedMSR) ∧ ProbesAsExt drive part := by
  obtain ⟨_, _, _, hcases⟩ := probe_cases drive part
  by_cases hmsr : part.isGpt = true ∧ part.gptTypeGuid = documentedMSR
  · have hk : part.kind = .unknown := by rw [hc.gpt hmsr.1, hmsr.2, classifyGpt_documentedMSR]
    have hd : part.isDataPartition = false := by rw [hc.agrees, hk]; rfl
    rcases hcases with ⟨hp, _, _, h⟩ | ⟨hp, _, h⟩
    · exact iff_of_true h ⟨hmsr, hp⟩
    · rw [h, hd]
      exact iff_of_false Bool.false_ne_true fun h' => hp ⟨h'.2, hk⟩
  · have hex := excluded_of_systemType hc hs hmsr
    rcases hcases with ⟨_, hk, _⟩ | ⟨_, _, h⟩
    · rw [hk] at hex; cases hex
    · rw [h, hc.agrees]
      refine iff_of_false (fun hsafe => ?_) fun h' => hmsr h'.1
      rw [safe_not_excluded _ hsafe] at hex
      cases hex

theorem systemType_probe (drive : PhysicalDrive) (part : PartitionInfo) :
    SystemType (probePartitionFilesystem drive part) ↔ SystemType part := by
  obtain ⟨hg, ht, hm, _⟩ := probe_cases drive part
  unfold SystemType
  rw [hg, ht, hm]

theorem not_sound_of_reserved (toUtf8 : List UInt16 → List Byte) {drive : PhysicalDrive}
    (diskIndex : UInt32) {gpt : Bool} {entries : List PartitionEntry} {entry : PartitionEntry}
    (hl : drive.layout = some (gpt, entries)) (he : entry ∈ entries) (hmsr : IsDocumentedMSR entry)
    (hext : CarriesExt drive entry) : ¬Sound (inspectDisk toUtf8 drive diskIndex).partitions := by
  intro h
  have hc := layoutPartition_classified toUtf8 diskIndex entry
  have hm := (layoutPartition_documentedMSR toUtf8 diskIndex entry).mpr hmsr
  have hs : SystemType (layoutPartition toUtf8 diskIndex entry) := by
    unfold SystemType
    rw [if_pos hm.1, hm.2]
    exact Or.inr (by simp [documentedSystemGuids])
  have hlen : entry.partitionLength ≠ 0 := by
    intro h0
    have hlong := hext.1
    rw [h0] at hlong
    exact absurd hlong (by decide)
  have hprobe := (probesAsExt_iff toUtf8 drive diskIndex entry).mpr hext
  have hdata := (probed_system_iff hc hs).mpr ⟨hm, hprobe⟩
  rw [h.system _ (mem_inspectDisk_partitions.mpr ⟨gpt, entries, hl, entry, he, hlen, rfl⟩)
    ((systemType_probe _ _).mpr hs)] at hdata
  cases hdata

/-- The partitions of a drive are sound exactly when none of its layout entries has
the documented type of the Microsoft reserved partition and an ext superblock. -/
theorem inspectDisk_sound_iff (toUtf8 : List UInt16 → List Byte) (drive : PhysicalDrive)
    (diskIndex : UInt32) :
    Sound (inspectDisk toUtf8 drive diskIndex).partitions ↔
      ∀ gpt entries, drive.layout = some (gpt, entries) → ∀ entry ∈ entries,
        ¬(IsDocumentedMSR entry ∧ CarriesExt drive entry) := by
  have hagrees : ∀ p ∈ (inspectDisk toUtf8 drive diskIndex).partitions,
      p.isDataPartition = isSafeDataPartition p.kind := by
    intro p hp
    obtain ⟨_, _, _, entry, _, _, rfl⟩ := mem_inspectDisk_partitions.mp hp
    exact probe_agrees (layoutPartition_classified toUtf8 diskIndex entry)
  constructor
  · rintro h gpt entries hl entry he ⟨hmsr, hext⟩
    exact not_sound_of_reserved toUtf8 diskIndex hl he hmsr hext h
  · intro h
    refine ⟨hagrees, fun p hp ⟨hd, hx⟩ => ?_, fun p hp hs => ?_,
      fun p hp => guards_agree (hagrees p hp)⟩
    · rw [safe_not_excluded p.kind (hagrees p hp ▸ hd)] at hx
      cases hx
    · obtain ⟨gpt, entries, hl, entry, he, _, rfl⟩ := mem_inspectDisk_partitions.mp hp
      have hc := layoutPartition_classified toUtf8 diskIndex entry
      refine Bool.eq_false_iff.mpr fun hd => h gpt entries hl entry he ?_
      have h' := (probed_system_iff hc ((systemType_probe _ _).mp hs)).mp hd
      exact ⟨(layoutPartition_documentedMSR toUtf8 diskIndex entry).mp h'.1,
        (probesAsExt_iff toUtf8 drive diskIndex entry).mp h'.2⟩

def reservedDrive : PhysicalDrive :=
  { geometry := none
    layout := some (true, [⟨.gpt documentedMSR .zero 0 [], 17408, 16777216, 1⟩])
    readAt := fun _ => some (List.replicate 1080 0 ++ [0x53, 0xEF] ++ List.replicate 966 0) }

theorem reserved_partition_mountable :
    ¬Sound (inspectDisk (fun _ => []) reservedDrive 0).partitions :=
  not_sound_of_reserved (fun _ => []) 0 rfl (List.mem_singleton_self _) ⟨_, _, _, rfl⟩
    ⟨by decide, _, rfl, by decide +kernel, by decide +kernel⟩

end Linux2Win.SystemPartitions
