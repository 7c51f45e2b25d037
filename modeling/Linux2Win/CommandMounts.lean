import Linux2Win.Plugging

namespace Linux2Win.CommandMounts

open Bytes Devices Ext4Types Reader Guids Partitions Enumerator Programs DirEnum Mounts MountFailures
open Plugging

inductive MountResult
  | diskNotFound (diskIdx : UInt32)
  | partitionNotFound (partIdx diskIdx : UInt32)
  | refused (partIdx : UInt32) (kind : PartitionKind)
  | cannotOpen (diskIndex : UInt32)
  | cannotParse (diskIndex partitionNumber : UInt32)
  | cannotProject
  | mounted (mountDir : WString) (device : BlockDevice) (reader : Ext4Reader)

/-- The folder that the command mounts in. Other than the daemon's it goes without the label. -/
def mountDirFor (targetFolder : List Byte) (diskIdx partIdx : UInt32) : WString :=
  widen (if targetFolder.isEmpty then
      asciiBytes "C:\\LinuxDisks\\Disk" ++ decimal diskIdx.toNat ++ asciiBytes "_Part" ++
        decimal partIdx.toNat
    else targetFolder)

section Command

variable {m : Type → Type} [Monad m]

def mountPartition (createFile : Bool → Bool) (raw : UInt32 → BlockDevice → Device m) (api : ProjFsApi)
    (part : PartitionInfo) (mountDir : WString) : ExceptT Fault m MountResult := do
  match openReadOnly createFile part.startingOffset part.totalLength with
  | none => return .cannotOpen part.diskIndex
  | some w =>
    let (ok, rd) ← mount (raw part.diskIndex w) w.isOpen initial
    if !ok then return .cannotParse part.diskIndex part.partitionNumber
    if !(start api false).1 then return .cannotProject
    return .mounted mountDir w rd

/-- Only the first partition with the number is looked at. -/
def cmdMount (inspect : UInt32 → Option DiskInfo) (createFile : Bool → Bool)
    (raw : UInt32 → BlockDevice → Device m) (api : ProjFsApi) (diskIdx partIdx : UInt32)
    (targetFolder : List Byte) : ExceptT Fault m MountResult := do
  match inspect diskIdx with
  | none => return .diskNotFound diskIdx
  | some disk =>
    match disk.partitions.find? fun part => part.partitionNumber == partIdx with
    | none => return .partitionNotFound partIdx diskIdx
    | some part =>
      if cmdMountRefuses part then return .refused partIdx part.kind
      mountPartition createFile raw api part (mountDirFor targetFolder diskIdx partIdx)

end Command

def device (c : Computer) (diskIndex : UInt32) (w : BlockDevice) : Device Id :=
  match c.disk diskIndex with
  | some disk => disk.device w
  | none => fun _ _ => pure none

section Commands

variable {c : Computer} {toUtf8 : List UInt16 → List Byte} {diskIdx partIdx : UInt32}
  {targetFolder : List Byte} {mountDir : WString} {w : BlockDevice} {rd : Ext4Reader}

theorem mountPartition_mounted {part : PartitionInfo} {dir : WString} :
    mountPartition c.createFile (device c) c.api part dir = pure (.mounted mountDir w rd) ↔
      openReadOnly c.createFile part.startingOffset part.totalLength = some w ∧
        mount (device c part.diskIndex w) w.isOpen initial = pure (true, rd) ∧ c.api.Projects ∧
        mountDir = dir := by
  rw [mountPartition]
  cases hopen : openReadOnly c.createFile part.startingOffset part.totalLength with
  | none =>
      refine iff_of_false (fun h => ?_) (fun h => nomatch h.1)
      cases pure_injective h
  | some w' =>
      dsimp only
      constructor
      · intro h
        obtain ⟨⟨ok, rd'⟩, hmount, h⟩ := bind_eq_pure.mp h
        cases ok with
        | false => cases pure_injective h
        | true =>
            dsimp only at h
            rw [if_neg (by simp)] at h
            split at h
            · cases pure_injective h
            · rename_i hstart
              cases pure_injective h
              rw [Bool.not_eq_true, Bool.not_eq_false'] at hstart
              exact ⟨rfl, hmount, (start_true_iff c.api).mp hstart, rfl⟩
      · rintro ⟨hw, hmount, hapi, rfl⟩
        cases hw
        rw [hmount, pure_bind]
        dsimp only
        rw [if_neg (by simp), (start_true_iff c.api).mpr hapi]
        rfl

theorem cmdMount_mounted :
    cmdMount (c.inspect toUtf8) c.createFile (device c) c.api diskIdx partIdx targetFolder =
        pure (.mounted mountDir w rd) ↔
      ∃ info part, c.inspect toUtf8 diskIdx = some info ∧
        info.partitions.find? (fun part => part.partitionNumber == partIdx) = some part ∧
        cmdMountRefuses part = false ∧
        openReadOnly c.createFile part.startingOffset part.totalLength = some w ∧
        mount (device c part.diskIndex w) w.isOpen initial = pure (true, rd) ∧ c.api.Projects ∧
        mountDir = mountDirFor targetFolder diskIdx partIdx := by
  rw [cmdMount]
  cases hdisk : c.inspect toUtf8 diskIdx with
  | none => exact iff_of_false (fun h => nomatch pure_injective h) fun ⟨_, _, h, _⟩ => nomatch h
  | some info =>
      dsimp only
      cases hpart : info.partitions.find? fun part => part.partitionNumber == partIdx with
      | none =>
          refine iff_of_false (fun h => nomatch pure_injective h) ?_
          rintro ⟨info', part, hinfo, hfound, _⟩
          cases hinfo
          cases hpart.symm.trans hfound
      | some part =>
          dsimp only
          constructor
          · intro h
            split at h
            · cases pure_injective h
            · rename_i hrefuses
              exact ⟨info, part, rfl, hpart, Bool.eq_false_iff.mpr hrefuses, mountPartition_mounted.mp h⟩
          · rintro ⟨info', part', hinfo, hfound, hrefuses, hmounted⟩
            cases hinfo
            cases hpart.symm.trans hfound
            rw [if_neg (by rw [hrefuses]; exact Bool.false_ne_true)]
            exact mountPartition_mounted.mpr hmounted

end Commands

section Table

variable {outcome : PartitionInfo → Outcome} {parts : List PartitionInfo} {key : MountKey}
  {am : ActiveMount} {d : Daemon}

structure MadeOf (o : Outcome) (part : PartitionInfo) (am : ActiveMount) : Prop where
  part_eq : am.part = part
  device : openReadOnly o.createFile part.startingOffset part.totalLength = some am.device
  reader : o.reader = some am.reader
  active : am.projfsActive = o.projfsStarts
  dir : am.mountDir = getMountDirForPartition part

theorem mountDataPartition_entry {o : Outcome} {part : PartitionInfo}
    (h : (mountDataPartition o part d).2.activeMounts.lookup key = some am) :
    d.activeMounts.lookup key = some am ∨ keyOf part = key ∧ MadeOf o part am := by
  unfold mountDataPartition at h
  split at h
  · exact Or.inl h
  · split at h
    · rename_i w rd hopen hreader
      by_cases hkey : key = keyOf part
      · subst hkey
        rw [AList.lookup_insert] at h
        cases h
        exact Or.inr ⟨rfl, rfl, hopen, hreader, rfl, rfl⟩
      · rw [AList.lookup_insert_ne hkey] at h
        exact Or.inl h
    · exact Or.inl h

theorem mountAll_entry (h : (mountAll outcome parts d).activeMounts.lookup key = some am) :
    d.activeMounts.lookup key = some am ∨
      ∃ part ∈ parts, keyOf part = key ∧ MadeOf (outcome part) part am := by
  induction parts generalizing d with
  | nil => exact Or.inl h
  | cons part parts ih =>
      rcases ih h with hrest | ⟨p, hp, hmade⟩
      · rcases mountDataPartition_entry hrest with hd | hmade
        · exact Or.inl hd
        · exact Or.inr ⟨part, List.mem_cons_self, hmade⟩
      · exact Or.inr ⟨p, List.mem_cons_of_mem _ hp, hmade⟩

end Table

section Agreement

variable {c : Computer} {toUtf8 : List UInt16 → List Byte} {diskIdx partIdx : UInt32} {info : DiskInfo}
  {part : PartitionInfo}

/-- The command and the daemon ask the same of a partition. -/
theorem guards_same (hinfo : c.inspect toUtf8 diskIdx = some info) (hpart : part ∈ info.partitions) :
    part.diskIndex = diskIdx ∧ cmdMountRefuses part = !isMountable part := by
  obtain ⟨disk, _, rfl⟩ := Option.map_eq_some_iff.mp hinfo
  refine ⟨inspectDisk_partition_diskIndex hpart, ?_⟩
  rw [cmdMountRefuses, isMountable, Bool.not_and, Bool.not_not]

theorem reader_device {w : BlockDevice} {rd : Ext4Reader}
    (hopen : openReadOnly c.createFile part.startingOffset part.totalLength = some w)
    (hdisk : (c.disk part.diskIndex).isSome = true) :
    c.reader part = some rd ↔ mount (device c part.diskIndex w) w.isOpen initial = pure (true, rd) := by
  obtain ⟨disk, hdisk⟩ := Option.isSome_iff_exists.mp hdisk
  have hdevice : device c part.diskIndex w = disk.device w := by rw [device, hdisk]
  rw [Computer.reader_eq_some, hdevice]
  constructor
  · rintro ⟨disk', w', hdisk', hopen', hmount⟩
    cases hdisk.symm.trans hdisk'
    cases hopen.symm.trans hopen'
    exact hmount
  · exact fun hmount => ⟨disk, w, hdisk, hopen, hmount⟩

theorem mem_scanned (hinfo : c.inspect toUtf8 diskIdx = some info)
    (h : part ∈ getAllMountablePartitions (c.inspect toUtf8)) (hindex : part.diskIndex = diskIdx) :
    part ∈ info.partitions ∧ isMountable part = true := by
  obtain ⟨other, hmem, hpart⟩ := List.mem_flatMap.mp h
  obtain ⟨hpart, hmountable⟩ := List.mem_filter.mp hpart
  obtain ⟨j, hother⟩ := mem_enumerateLoop hmem
  obtain rfl : diskIdx = j := hindex.symm.trans (guards_same hother hpart).1
  cases hinfo.symm.trans hother
  exact ⟨hpart, hmountable⟩

theorem mountDir_unlabelled (h : part.fsLabel = []) :
    getMountDirForPartition part = mountDirFor [] part.diskIndex part.partitionNumber := by
  rw [getMountDirForPartition, h]
  rfl

theorem find_unique {parts : List PartitionInfo} (hmem : part ∈ parts)
    (hnumber : part.partitionNumber = partIdx)
    (hunique : ∀ p ∈ parts, p.partitionNumber = partIdx → p = part) :
    parts.find? (fun p => p.partitionNumber == partIdx) = some part := by
  cases hfind : parts.find? fun p => p.partitionNumber == partIdx with
  | none =>
      rw [List.find?_eq_none] at hfind
      exact absurd (beq_iff_eq.mpr hnumber) (hfind part hmem)
  | some p =>
      have hsame := List.find?_some hfind
      rw [beq_iff_eq] at hsame
      rw [hunique p (List.mem_of_find?_eq_some hfind) hsame]

theorem cmdMount_plugged {entry : PartitionEntry} {disk : Disk} {w : BlockDevice} {rd : Ext4Reader}
    {v : Volumes.Volume} (h : Plugged c toUtf8 diskIdx entry disk w rd v) (hapi : c.api.Projects)
    (targetFolder : List Byte) :
    cmdMount (c.inspect toUtf8) c.createFile (device c) c.api diskIdx entry.partitionNumber
        targetFolder =
      pure (.mounted (mountDirFor targetFolder diskIdx entry.partitionNumber) w rd) := by
  obtain ⟨hmem, honly⟩ := h.scanned_once
  have hkey := shown_key c toUtf8 diskIdx disk entry
  have hinfo : c.inspect toUtf8 diskIdx = some (inspectDisk toUtf8 (c.drive diskIdx disk) diskIdx) := by
    rw [Computer.inspect, h.disk_eq]
    rfl
  obtain ⟨hpart, hmountable⟩ := mem_scanned hinfo hmem (congrArg Prod.fst hkey)
  obtain ⟨gpt, entries, hlayout, _, hunique⟩ := h.listed
  have hfound := find_unique hpart (congrArg Prod.snd hkey) (by
    intro p hp hnumber
    obtain ⟨gpt', entries', hlayout', e, he, -, rfl⟩ := mem_inspectDisk_partitions.mp hp
    cases Option.some.inj (hlayout.symm.trans hlayout')
    rw [(probed_fields _ _).1, (layout_fields _ _ _).1] at hnumber
    rw [hunique e he hnumber, shown])
  obtain ⟨-, hoffset, hlength⟩ := probed_fields (c.drive diskIdx disk) (layoutPartition toUtf8 diskIdx entry)
  refine cmdMount_mounted.mpr ⟨_, _, hinfo, hfound, ?_, ?_, ?_, hapi, rfl⟩
  · rw [(guards_same hinfo hpart).2, hmountable]
    rfl
  · rw [shown, hoffset, hlength, (layout_fields _ _ _).2.1, (layout_fields _ _ _).2.2, h.opens]
  · have hindex : (shown c toUtf8 diskIdx disk entry).diskIndex = diskIdx := congrArg Prod.fst hkey
    rw [device, hindex, h.disk_eq]
    exact h.mounts

end Agreement

section Example

def plainInfo : DiskInfo :=
  inspectDisk (fun _ => []) (plainComputer.drive 0 StoredVolumes.plainDisk) 0

end Example

end Linux2Win.CommandMounts
