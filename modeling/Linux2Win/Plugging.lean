import Linux2Win.MountFailures
import Linux2Win.ServedFiles
import Linux2Win.SystemPartitions
import Linux2Win.VolumeLabels

namespace Linux2Win.Plugging

open Bytes Devices Ext4Types Reader Directory Partitions Enumerator SystemPartitions Programs
open VolumeLabels DirEnum Mounts
open MountFailures NodeTree Callbacks Transducers Provider Volumes StoredVolumes ServedFiles

/-- What the daemon reaches of a computer: the disk behind each physical drive with what
Windows knows of it, the handles that can be opened, and ProjFS. -/
structure Computer where
  disk : UInt32 → Option Disk
  geometry : UInt32 → Option (UInt64 × UInt32)
  layout : UInt32 → Option (Bool × List PartitionEntry)
  createFile : Bool → Bool
  api : ProjFsApi

namespace Computer

variable (c : Computer) (toUtf8 : List UInt16 → List Byte)

def drive (diskIndex : UInt32) (disk : Disk) : PhysicalDrive :=
  driveOf disk (c.geometry diskIndex) (c.layout diskIndex)

def inspect (diskIndex : UInt32) : Option DiskInfo :=
  (c.disk diskIndex).map fun disk => inspectDisk toUtf8 (c.drive diskIndex disk) diskIndex

def reader (part : PartitionInfo) : Option Ext4Reader :=
  (c.disk part.diskIndex).bind fun disk =>
    (openReadOnly c.createFile part.startingOffset part.totalLength).bind fun w =>
      match result (mount (disk.device w) w.isOpen initial) with
      | some (true, rd) => some rd
      | some (false, _) | none => none

end Computer

theorem mount_mounted {dev : Device Id} {isOpen : Bool} {rd rd' : Ext4Reader}
    (h : mount dev isOpen rd = pure (true, rd')) : rd'.mounted = true := by
  rw [mount] at h
  cases isOpen with
  | false => cases pure_injective h
  | true =>
      obtain ⟨b, _, h⟩ := bind_eq_pure.mp h
      cases b with
      | none => cases pure_injective h
      | some b =>
          dsimp only at h
          split at h
          · cases pure_injective h
          · split at h
            · cases pure_injective h
            · split at h
              · cases pure_injective h
              · cases pure_injective h
                rfl

theorem Computer.reader_eq_some {c : Computer} {part : PartitionInfo} {rd : Ext4Reader} :
    c.reader part = some rd ↔ ∃ disk w, c.disk part.diskIndex = some disk ∧
      openReadOnly c.createFile part.startingOffset part.totalLength = some w ∧
      mount (disk.device w) w.isOpen initial = pure (true, rd) := by
  rw [Computer.reader, Option.bind_eq_some_iff]
  constructor
  · rintro ⟨disk, hdisk, h⟩
    obtain ⟨w, hw, h⟩ := Option.bind_eq_some_iff.mp h
    cases hmount : result (mount (disk.device w) w.isOpen initial) with
    | none =>
        rw [hmount] at h
        cases h
    | some r =>
        obtain ⟨ok, rd'⟩ := r
        rw [hmount] at h
        cases ok with
        | false => cases h
        | true =>
            cases h
            exact ⟨disk, w, hdisk, hw, result_eq_some.mp hmount⟩
  · rintro ⟨disk, w, hdisk, hw, hmount⟩
    refine ⟨disk, hdisk, ?_⟩
    rw [hw, Option.bind_some, hmount]
    rfl

theorem Computer.reader_mounted (c : Computer) (part : PartitionInfo) (rd : Ext4Reader)
    (h : c.reader part = some rd) : rd.mounted = true := by
  obtain ⟨_, _, _, _, hmount⟩ := Computer.reader_eq_some.mp h
  exact mount_mounted hmount

def Computer.attempt (c : Computer) (part : PartitionInfo) : Attempt :=
  ⟨c.createFile, c.reader part, c.reader_mounted part, c.api⟩

section Table

variable {o : Outcome} {outcome : PartitionInfo → Outcome} {part : PartitionInfo}
  {parts : List PartitionInfo} {key : MountKey} {am : ActiveMount} {d : Daemon}

theorem mountDataPartition_kept (o : Outcome) (part : PartitionInfo)
    (h : d.activeMounts.lookup key = some am) :
    (mountDataPartition o part d).2.activeMounts.lookup key = some am := by
  rcases mountDataPartition_cases o part d with ⟨_, hnew, mount, hrun⟩ | ⟨_, hrun⟩
  · have hne : key ≠ keyOf part := by
      rintro rfl
      exact hnew (AList.lookup_isSome.mp (Option.isSome_of_eq_some h))
    rw [hrun]
    exact (AList.lookup_insert_ne hne).trans h
  · rwa [hrun]

theorem mountAll_kept (h : d.activeMounts.lookup key = some am) :
    (mountAll outcome parts d).activeMounts.lookup key = some am := by
  induction parts generalizing d with
  | nil => exact h
  | cons part parts ih => exact ih (mountDataPartition_kept (outcome part) part h)

variable {w : BlockDevice} {rd : Ext4Reader}

theorem mountDataPartition_new
    (hopen : openReadOnly o.createFile part.startingOffset part.totalLength = some w)
    (hreader : o.reader = some rd) (hnew : keyOf part ∉ d.activeMounts) :
    (mountDataPartition o part d).2.activeMounts.lookup (keyOf part) =
      some ⟨part, getMountDirForPartition part, w, rd, o.projfsStarts⟩ := by
  rw [mountDataPartition, if_neg hnew, hopen, hreader]
  exact AList.lookup_insert _

theorem mountAll_new (hmem : part ∈ parts) (hunique : ∀ p ∈ parts, keyOf p = keyOf part → p = part)
    (hopen : openReadOnly (outcome part).createFile part.startingOffset part.totalLength = some w)
    (hreader : (outcome part).reader = some rd) (hnew : keyOf part ∉ d.activeMounts) :
    (mountAll outcome parts d).activeMounts.lookup (keyOf part) =
      some ⟨part, getMountDirForPartition part, w, rd, (outcome part).projfsStarts⟩ := by
  induction parts generalizing d with
  | nil => cases hmem
  | cons p parts ih =>
      by_cases hp : p = part
      · subst hp
        have hmounted := mountDataPartition_new hopen hreader hnew
        rw [mountAll, List.foldl_cons]
        exact mountAll_kept hmounted
      · have hkey : keyOf p ≠ keyOf part := fun h => hp (hunique p List.mem_cons_self h)
        refine ih ?_ (fun q hq => hunique q (List.mem_cons_of_mem _ hq)) ?_
        · exact (List.mem_cons.mp hmem).resolve_left (Ne.symm hp)
        · rw [mountDataPartition_mem]
          rintro (⟨_, h⟩ | h)
          · exact hkey h.symm
          · exact hnew h

theorem foldl_inserted (disks : List DiskInfo) :
    disks.foldl (fun d disk => diskEvent outcome .inserted disk d) d =
      mountAll outcome (disks.flatMap mountablePartitions) d := by
  induction disks generalizing d with
  | nil => rfl
  | cons disk disks ih =>
      rw [List.foldl_cons, ih, List.flatMap_cons, mountAll, mountAll, List.foldl_append]
      rfl

end Table

section Scan

variable {inspect : UInt32 → Option DiskInfo} {info : DiskInfo}

theorem mem_enumerateLoop {count misses : Nat} {i : UInt32}
    (h : info ∈ enumerateLoop inspect count i misses) : ∃ j, inspect j = some info := by
  induction count generalizing i misses with
  | zero => cases h
  | succ count ih =>
      rw [enumerateLoop] at h
      cases hi : inspect i with
      | none =>
          rw [hi] at h
          dsimp only at h
          split at h
          · cases h
          · exact ih h
      | some disk =>
          rw [hi] at h
          rcases List.mem_cons.mp h with rfl | h
          · exact ⟨i, hi⟩
          · exact ih h

end Scan

/-- A volume in a partition that the scan finds: it has a number of its own on its drive and
a type of Linux or an unknown one, and the handle, the probe and the reader come up. -/
structure Plugged (c : Computer) (toUtf8 : List UInt16 → List Byte) (diskIndex : UInt32)
    (entry : PartitionEntry) (disk : Disk) (w : BlockDevice) (rd : Ext4Reader) (v : Volume) : Prop where
  scanned : ∃ info ∈ enumerateAllDisks (c.inspect toUtf8), info.diskIndex = diskIndex
  disk_eq : c.disk diskIndex = some disk
  listed : ∃ gpt entries, c.layout diskIndex = some (gpt, entries) ∧ entry ∈ entries ∧
    ∀ e ∈ entries, e.partitionNumber = entry.partitionNumber → e = entry
  type : isSafeDataPartition (layoutPartition toUtf8 diskIndex entry).kind = true ∨
    (layoutPartition toUtf8 diskIndex entry).kind = .unknown
  opens : openReadOnly c.createFile entry.startingOffset entry.partitionLength = some w
  probed : (probeBuffer (c.drive diskIndex disk) (layoutPartition toUtf8 diskIndex entry)).isSome = true
  mounts : mount (disk.device w) w.isOpen initial = pure (true, rd)
  stored : Stored (disk.device w) rd v
  projectable : Projectable v.reader

section Arrival

variable {c : Computer} {toUtf8 : List UInt16 → List Byte} {diskIndex : UInt32} {entry : PartitionEntry}
  {disk : Disk} {w : BlockDevice} {rd : Ext4Reader} {v : Volume}

def shown (c : Computer) (toUtf8 : List UInt16 → List Byte) (diskIndex : UInt32) (disk : Disk)
    (entry : PartitionEntry) : PartitionInfo :=
  probePartitionFilesystem (c.drive diskIndex disk) (layoutPartition toUtf8 diskIndex entry)

theorem probed_fields (drive : PhysicalDrive) (part : PartitionInfo) :
    (probePartitionFilesystem drive part).partitionNumber = part.partitionNumber ∧
      (probePartitionFilesystem drive part).startingOffset = part.startingOffset ∧
      (probePartitionFilesystem drive part).totalLength = part.totalLength := by
  unfold probePartitionFilesystem
  split
  · exact ⟨rfl, rfl, rfl⟩
  · dsimp only
    split
    · split <;> exact ⟨rfl, rfl, rfl⟩
    · exact ⟨rfl, rfl, rfl⟩

theorem layout_fields (toUtf8 : List UInt16 → List Byte) (diskIndex : UInt32) (entry : PartitionEntry) :
    (layoutPartition toUtf8 diskIndex entry).partitionNumber = entry.partitionNumber ∧
      (layoutPartition toUtf8 diskIndex entry).startingOffset = entry.startingOffset ∧
      (layoutPartition toUtf8 diskIndex entry).totalLength = entry.partitionLength := by
  unfold layoutPartition
  cases entry.style <;> exact ⟨rfl, rfl, rfl⟩

theorem Plugged.mountable (h : Plugged c toUtf8 diskIndex entry disk w rd v) :
    isMountable (shown c toUtf8 diskIndex disk entry) = true := by
  have hclass := layoutPartition_classified toUtf8 diskIndex entry
  have hdata : (shown c toUtf8 diskIndex disk entry).isDataPartition = true := by
    obtain ⟨_, _, _, ⟨_, _, _, hdata⟩ | ⟨hnot, _, hdata⟩⟩ :=
      probe_cases (c.drive diskIndex disk) (layoutPartition toUtf8 diskIndex entry)
    · exact hdata
    · rcases h.type with hsafe | hunknown
      · exact hdata.trans (hclass.agrees.trans hsafe)
      · obtain ⟨buffer, hprobe⟩ := Option.isSome_iff_exists.mp h.probed
        obtain ⟨hisOpen, hoffset⟩ := openReadOnly_fields h.opens
        have hmount := h.mounts
        rw [hisOpen] at hmount
        refine absurd ⟨⟨buffer, hprobe, probe_of_mount ?_ hprobe hmount⟩, hunknown⟩ hnot
        rw [hoffset, (layout_fields toUtf8 diskIndex entry).2.1]
  have hagrees : (shown c toUtf8 diskIndex disk entry).isDataPartition =
      isSafeDataPartition (shown c toUtf8 diskIndex disk entry).kind := probe_agrees hclass
  have hmatch := (guards_agree hagrees).2.2
  rw [← hmatch, cmdCatMatches, hdata, beq_self_eq_true, Bool.and_self]

theorem shown_key (c : Computer) (toUtf8 : List UInt16 → List Byte) (diskIndex : UInt32) (disk : Disk)
    (entry : PartitionEntry) :
    keyOf (shown c toUtf8 diskIndex disk entry) = (diskIndex, entry.partitionNumber) := by
  have hindex : (layoutPartition toUtf8 diskIndex entry).diskIndex = diskIndex := by
    unfold layoutPartition
    cases entry.style <;> rfl
  rw [keyOf, shown, probe_diskIndex, hindex, (probed_fields _ _).1, (layout_fields _ _ _).1]

theorem scanned_drive (h : c.disk diskIndex = some disk) {info : DiskInfo} {j : UInt32}
    (hinfo : c.inspect toUtf8 j = some info) (hindex : info.diskIndex = diskIndex) :
    info = inspectDisk toUtf8 (c.drive diskIndex disk) diskIndex := by
  obtain ⟨disk', hdisk', rfl⟩ := Option.map_eq_some_iff.mp hinfo
  obtain rfl : j = diskIndex := hindex
  cases Option.some.inj (hdisk'.symm.trans h)
  rfl

theorem Plugged.scanned_once (h : Plugged c toUtf8 diskIndex entry disk w rd v) :
    shown c toUtf8 diskIndex disk entry ∈
        (enumerateAllDisks (c.inspect toUtf8)).flatMap mountablePartitions ∧
      ∀ p ∈ (enumerateAllDisks (c.inspect toUtf8)).flatMap mountablePartitions,
        keyOf p = keyOf (shown c toUtf8 diskIndex disk entry) →
          p = shown c toUtf8 diskIndex disk entry := by
  obtain ⟨gpt, entries, hlayout, hentry, hunique⟩ := h.listed
  constructor
  · obtain ⟨info, hmem, hindex⟩ := h.scanned
    obtain ⟨j, hinfo⟩ := mem_enumerateLoop hmem
    have hlen : entry.partitionLength ≠ 0 := by
      intro hzero
      have hprobed := h.probed
      rw [probeBuffer, (layout_fields toUtf8 diskIndex entry).2.2, hzero, if_pos (by decide)] at hprobed
      exact Bool.false_ne_true hprobed
    refine List.mem_flatMap.mpr ⟨info, hmem, List.mem_filter.mpr ⟨?_, h.mountable⟩⟩
    rw [scanned_drive h.disk_eq hinfo hindex, mem_inspectDisk_partitions]
    exact ⟨gpt, entries, hlayout, entry, hentry, hlen, rfl⟩
  · intro p hp hkey
    obtain ⟨info, hmem, hpart⟩ := List.mem_flatMap.mp hp
    have hpart := (List.mem_filter.mp hpart).1
    obtain ⟨j, hinfo⟩ := mem_enumerateLoop hmem
    rw [shown_key] at hkey
    obtain ⟨disk', hdisk', rfl⟩ := Option.map_eq_some_iff.mp hinfo
    have hindex := inspectDisk_partition_diskIndex hpart
    obtain rfl : diskIndex = j := (congrArg Prod.fst hkey).symm.trans hindex
    rw [scanned_drive h.disk_eq hinfo rfl] at hpart
    obtain ⟨gpt', entries', hlayout', e, he, -, rfl⟩ := mem_inspectDisk_partitions.mp hpart
    cases Option.some.inj (hlayout.symm.trans hlayout')
    have hnumber : e.partitionNumber = entry.partitionNumber := by
      have := congrArg Prod.snd hkey
      rwa [keyOf, (probed_fields _ _).1, (layout_fields _ _ _).1] at this
    rw [hunique e he hnumber, shown]

theorem Plugged.arrives (h : Plugged c toUtf8 diskIndex entry disk w rd v) (hapi : c.api.Projects)
    {d : Daemon} (hnew : (diskIndex, entry.partitionNumber) ∉ d.activeMounts) {msg : WindowMessage}
    (hmsg : eventType msg = some .inserted) :
    (windowProc (fun part => (c.attempt part).outcome) (enumerateAllDisks (c.inspect toUtf8)) msg
        d).activeMounts.lookup (diskIndex, entry.partitionNumber) =
      some ⟨shown c toUtf8 diskIndex disk entry,
        getMountDirForPartition (shown c toUtf8 diskIndex disk entry), w, rd, true⟩ := by
  obtain ⟨hmem, hunique⟩ := h.scanned_once
  have hkey := shown_key c toUtf8 diskIndex disk entry
  have hopen : openReadOnly c.createFile (shown c toUtf8 diskIndex disk entry).startingOffset
      (shown c toUtf8 diskIndex disk entry).totalLength = some w := by
    obtain ⟨-, hoffset, hlength⟩ := probed_fields (c.drive diskIndex disk)
      (layoutPartition toUtf8 diskIndex entry)
    rw [shown, hoffset, hlength, (layout_fields _ _ _).2.1, (layout_fields _ _ _).2.2, h.opens]
  have hreader : c.reader (shown c toUtf8 diskIndex disk entry) = some rd :=
    Computer.reader_eq_some.mpr ⟨disk, w, (congrArg c.disk (congrArg Prod.fst hkey)).trans h.disk_eq,
      hopen, h.mounts⟩
  rw [windowProc, hmsg]
  dsimp only
  rw [foldl_inserted, ← hkey, mountAll_new hmem hunique hopen hreader (by rwa [hkey])]
  congr 2
  exact (start_true_iff c.api).mpr hapi

end Arrival

/-- Whatever callbacks come to the projection of a mount, a request for bytes of a regular
file of the volume is answered with them. -/
def ServesFiles (disk : Disk) (am : ActiveMount) (v : Volume) : Prop :=
  ∃ bound, ∀ fuel ≥ bound, ∀ (fileNameMatch : Option (WString → WString → Bool))
    (turns : List (Turn Unit)) (answers : List Answer),
    run (fun _ => ⟨disk.device am.device, am.reader⟩) fuel fileNameMatch (start Unit) turns =
      pure answers →
    ∀ (path : Option WString) (inodeNum : UInt32) (byteOffset : UInt64) (length : UInt32)
      (buffer data : List Byte) (count : Nat),
      followPath v path = some inodeNum → 0 < length.toNat →
      byteOffset.toNat + length.toNat < 2 ^ 64 →
      v.read inodeNum byteOffset.toNat length.toNat = some data →
      (completed (fun _ => none) turns)[count]? =
        some ⟨(), true, .getFileData path byteOffset length (some buffer)⟩ →
      answers[count]? = some (.fileData (.ok data))

theorem servesFiles {disk : Disk} {am : ActiveMount} {v : Volume}
    (hstored : Stored (disk.device am.device) am.reader v) (hproj : Projectable v.reader) :
    ServesFiles disk am v := by
  obtain ⟨bound, hbound⟩ := exists_enough ⟨disk, am.device, am.reader, v, hstored, hproj⟩
  refine ⟨max bound (2 ^ 32), fun fuel hfuel fileNameMatch turns answers hrun path inodeNum byteOffset
    length buffer data count hpath hpos hno hdata hcount => ?_⟩
  exact served_bytes (fun _ _ => hbound fuel ((le_max_left _ _).trans hfuel)) hrun hpath hpos hno
    ((le_max_right _ _).trans hfuel) hdata hcount

section Example

def plainComputer : Computer where
  disk i := if i = 0 then some plainDisk else none
  geometry _ := none
  layout _ := some (false, [⟨.mbr 0x83 false, 0, 16384, 1⟩])
  createFile _ := true
  api := ⟨true, 0, 0⟩

theorem plain_plugged : Plugged plainComputer (fun _ => []) 0 ⟨.mbr 0x83 false, 0, 16384, 1⟩ plainDisk
    plainWindow plainRd plainVolume where
  scanned := ⟨_, List.mem_cons_self, rfl⟩
  disk_eq := rfl
  listed := ⟨false, _, rfl, List.mem_cons_self, fun e he _ => List.mem_singleton.mp he⟩
  type := Or.inl rfl
  opens := rfl
  probed := by decide +kernel
  mounts := plain_mounts
  stored := plain_stored
  projectable := plainProjection.projectable

def arrivalMessage : WindowMessage := ⟨wmDeviceChange, dbtDeviceArrival, some dbtDevtypDeviceInterface⟩

end Example

end Linux2Win.Plugging
