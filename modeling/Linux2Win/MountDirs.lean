import Linux2Win.DirPaths
import Linux2Win.Mounts
import Mathlib.Data.List.TakeWhile
import Mathlib.Data.Set.Basic
import Mathlib.Tactic.IntervalCases

namespace Linux2Win.MountDirs

open Bytes Guids Ext4Types Partitions Enumerator Mounts DirPaths

def wideSeparator (c : UInt16) : Bool := c == 0x2F || c == 0x5C
def wideDot : UInt16 := 0x2E

def wide (s : String) : List UInt16 := widen (asciiBytes s)

def resolved (path : List UInt16) : List UInt16 × List (List UInt16) :=
  resolve wideDot wideSeparator path

/-- The mount directory is a direct child of `C:\LinuxDisks`. -/
def Confined (part : PartitionInfo) : Prop :=
  ∃ name, resolved (getMountDirForPartition part) = (wide "C:", [name, wide "LinuxDisks"])

def components (label : List Byte) : List (List UInt16) := (widen label).splitOnP wideSeparator

/-- What follows the first separator of a label never leads out of the directory where
it starts, and ends there. -/
def Stays (label : List Byte) : Prop :=
  (components label).tail.foldlM (level wideDot) 0 = some 0

section Numbers

theorem digit_toNat {n : Nat} {c : Char} (h : c ∈ Nat.toDigits 10 n) :
    48 ≤ c.toNat ∧ c.toNat ≤ 57 := by
  have hdigit := Nat.isDigit_of_mem_toDigits (by decide) (by decide) h
  simp only [Char.isDigit, Bool.and_eq_true, decide_eq_true_eq, ge_iff_le, UInt32.le_iff_toNat_le] at hdigit
  exact hdigit

theorem widen_digit {k : Nat} (hlo : 48 ≤ k) (hhi : k ≤ 57) :
    (UInt8.ofNat k).toInt8.toInt16.toUInt16 = UInt16.ofNat k := by
  interval_cases k <;> rfl

theorem widen_decimal (n : Nat) :
    widen (decimal n) = (Nat.toDigits 10 n).map fun c => UInt16.ofNat c.toNat := by
  rw [widen, decimal, List.map_map]
  refine List.map_congr_left fun c hc => ?_
  obtain ⟨hlo, hhi⟩ := digit_toNat hc
  exact widen_digit hlo hhi

theorem mem_widen_decimal {n : Nat} {c : UInt16} (h : c ∈ widen (decimal n)) : 48 ≤ c ∧ c ≤ 57 := by
  rw [widen_decimal] at h
  obtain ⟨d, hd, rfl⟩ := List.mem_map.mp h
  obtain ⟨hlo, hhi⟩ := digit_toNat hd
  rw [UInt16.le_iff_toNat_le, UInt16.le_iff_toNat_le, UInt16.toNat_ofNat_of_lt' (by
    simp only [UInt16.size]
    omega)]
  exact ⟨hlo, hhi⟩

theorem widen_decimal_injective {n k : Nat} (h : widen (decimal n) = widen (decimal k)) : n = k := by
  have hchars : ∀ n, (widen (decimal n)).map (fun c => Char.ofNat c.toNat) = Nat.toDigits 10 n := by
    intro n
    rw [widen_decimal, List.map_map]
    refine (List.map_congr_left fun c hc => ?_).trans (List.map_id _)
    obtain ⟨_, hhi⟩ := digit_toNat hc
    rw [Function.comp_apply, UInt16.toNat_ofNat_of_lt' (by
      simp only [UInt16.size]
      omega)]
    exact Char.ofNat_toNat c
  have hdigits := (hchars n).symm.trans ((congrArg _ h).trans (hchars k))
  rw [← Nat.ofDigitChars_ten_toDigits (n := n), hdigits, Nat.ofDigitChars_ten_toDigits]

end Numbers

section Names

variable {part part' : PartitionInfo}

def ownName (part : PartitionInfo) : List UInt16 :=
  wide "Disk" ++ (widen (decimal part.diskIndex.toNat) ++ (wide "_Part" ++
    (widen (decimal part.partitionNumber.toNat) ++ if part.fsLabel = [] then [] else wide "_")))

def dirName (part : PartitionInfo) : List UInt16 :=
  ownName part ++ (components part.fsLabel).headD []

theorem widen_append (l r : List Byte) : widen (l ++ r) = widen l ++ widen r := List.map_append

theorem mountDir_eq (part : PartitionInfo) : getMountDirForPartition part =
    wide "C:" ++ 0x5C :: (wide "LinuxDisks" ++ 0x5C :: (ownName part ++ widen part.fsLabel)) := by
  have hroot : wide "C:\\LinuxDisks\\Disk" =
      wide "C:" ++ 0x5C :: (wide "LinuxDisks" ++ 0x5C :: wide "Disk") := by
    decide
  rw [getMountDirForPartition, ownName]
  split
  · rename_i hnil
    rw [List.isEmpty_iff.mp hnil, if_pos rfl]
    simp only [widen_append]
    change wide _ ++ _ ++ _ ++ _ = _
    rw [hroot]
    simp [widen, wide]
  · rename_i hne
    rw [if_neg (by simpa using hne)]
    simp only [widen_append]
    change wide _ ++ _ ++ _ ++ _ ++ _ ++ _ = _
    rw [hroot]
    simp [wide]

theorem plain_of_all {text : List UInt16} (h : text.all (fun c => !wideSeparator c) = true) :
    ∀ c ∈ text, wideSeparator c = false := by
  simpa using h

theorem ownName_plain (part : PartitionInfo) : ∀ c ∈ ownName part, wideSeparator c = false := by
  have hdigits : ∀ n, ∀ c ∈ widen (decimal n), wideSeparator c = false := by
    intro n c hc
    obtain ⟨hlo, hhi⟩ := mem_widen_decimal hc
    rw [wideSeparator, Bool.or_eq_false_iff, beq_eq_false_iff_ne, beq_eq_false_iff_ne]
    constructor
    · rintro rfl
      exact absurd hlo (by decide)
    · rintro rfl
      exact absurd hhi (by decide)
  intro c hc
  simp only [ownName, List.mem_append] at hc
  rcases hc with hc | hc | hc | hc | hc
  · exact plain_of_all (by decide) c hc
  · exact hdigits _ c hc
  · exact plain_of_all (by decide) c hc
  · exact hdigits _ c hc
  · split at hc
    · cases hc
    · exact plain_of_all (by decide) c hc

theorem dirName_enters (part : PartitionInfo) (way : List (List UInt16)) :
    enter wideDot way (dirName part) = dirName part :: way := by
  have hdisk : wide "Disk" = 0x44 :: wide "isk" := by decide
  rw [enter, dirName, ownName, hdisk]
  simp only [List.cons_append]
  rw [if_neg (by simp [wideDot]), if_neg (by simp [wideDot])]

theorem resolved_mountDir (part : PartitionInfo) : resolved (getMountDirForPartition part) =
    (wide "C:", (components part.fsLabel).tail.foldl (enter wideDot)
      [dirName part, wide "LinuxDisks"]) := by
  have hdrive : ∀ c ∈ wide "C:", wideSeparator c = false := plain_of_all (by decide)
  have hroot : ∀ c ∈ wide "LinuxDisks", wideSeparator c = false := plain_of_all (by decide)
  rw [resolved, resolve, mountDir_eq, List.splitOnP_append_cons_of_forall_mem hdrive _ rfl,
    List.splitOnP_append_cons_of_forall_mem hroot _ rfl, splitOnP_append wideSeparator (ownName_plain part)]
  have hstep := dirName_enters part [wide "LinuxDisks"]
  rw [dirName] at hstep ⊢
  change (wide "C:", List.foldl _ _ _) = _
  rw [components] at hstep ⊢
  cases hparts : (widen part.fsLabel).splitOnP wideSeparator with
  | nil => exact absurd hparts (List.splitOnP_ne_nil _ _)
  | cons first parts =>
      rw [hparts] at hstep
      rw [List.modifyHead_cons, List.foldl_cons, List.foldl_cons]
      exact congrArg (fun way => (wide "C:", parts.foldl (enter wideDot) way)) hstep

theorem takeWhile_marked {α : Type} [DecidableEq α] {marker : α} {front back : List α}
    (hfront : ∀ c ∈ front, c ≠ marker) (hback : back = [] ∨ back.head? = some marker) :
    (front ++ back).takeWhile (· != marker) = front := by
  rw [List.takeWhile_append_of_pos (by simpa using hfront)]
  rcases hback with rfl | hhead
  · rw [List.takeWhile_nil, List.append_nil]
  · obtain ⟨rest, rfl⟩ := List.head?_eq_some_iff.mp hhead
    rw [List.takeWhile_cons_of_neg (by simp), List.append_nil]

theorem decimal_marked {n k : Nat} {back back' : List UInt16}
    (h : widen (decimal n) ++ back = widen (decimal k) ++ back')
    (hback : back = [] ∨ back.head? = some 0x5F) (hback' : back' = [] ∨ back'.head? = some 0x5F) :
    n = k ∧ back = back' := by
  have hdigits : ∀ n, ∀ c ∈ widen (decimal n), c ≠ 0x5F := by
    rintro n _ hc rfl
    exact absurd (mem_widen_decimal hc).2 (by decide)
  have hfront := congrArg (List.takeWhile (· != 0x5F)) h
  rw [takeWhile_marked (hdigits n) hback, takeWhile_marked (hdigits k) hback'] at hfront
  obtain rfl := widen_decimal_injective hfront
  exact ⟨rfl, List.append_cancel_left h⟩

/-- The name tells the disk and the partition apart from the label. -/
theorem dirName_injective (h : dirName part = dirName part') : keyOf part = keyOf part' := by
  have hlabel : ∀ part : PartitionInfo,
      ((if part.fsLabel = [] then [] else wide "_") ++ (components part.fsLabel).headD []) = [] ∨
        ((if part.fsLabel = [] then [] else wide "_") ++
          (components part.fsLabel).headD []).head? = some 0x5F := by
    intro part
    split
    · rename_i hnil
      rw [hnil]
      exact Or.inl rfl
    · exact Or.inr rfl
  simp only [dirName, ownName, List.append_assoc] at h
  obtain ⟨hdisk, hrest⟩ := decimal_marked (List.append_cancel_left h) (Or.inr rfl) (Or.inr rfl)
  obtain ⟨hpart, _⟩ := decimal_marked (List.append_cancel_left hrest) (hlabel part) (hlabel part')
  rw [keyOf, keyOf, UInt32.toNat_inj.mp hdisk, UInt32.toNat_inj.mp hpart]

end Names

section Places

variable {part : PartitionInfo} {label : List Byte}

theorem resolved_of_stays (h : Stays part.fsLabel) :
    resolved (getMountDirForPartition part) = (wide "C:", [dirName part, wide "LinuxDisks"]) := by
  obtain ⟨front, hlen, hfold⟩ := foldl_enter_of_levels [] h
  obtain rfl := List.length_eq_zero_iff.mp hlen
  rw [resolved_mountDir]
  exact congrArg (Prod.mk _) (hfold _)

/-- A label that leads out of the directory leads to one place from all partitions. -/
theorem resolved_of_leaves (h : (components label).tail.foldlM (level wideDot) 0 = none) :
    ∃ place, ∀ part : PartitionInfo, part.fsLabel = label →
      resolved (getMountDirForPartition part) = place := by
  obtain ⟨before, after, hparts, hbefore⟩ := levels_none h
  obtain ⟨front, hlen, hfold⟩ := foldl_enter_of_levels [] hbefore
  obtain rfl := List.length_eq_zero_iff.mp hlen
  refine ⟨(wide "C:", after.foldl (enter wideDot) [wide "LinuxDisks"]), ?_⟩
  rintro part rfl
  rw [resolved_mountDir, hparts, List.foldl_append, List.foldl_cons]
  change (_, List.foldl _ (enter _ (List.foldl _ ([] ++ [dirName part, wide "LinuxDisks"]) _) _) _) = _
  rw [hfold]
  rfl

theorem not_confined_of_deeper {k : Nat}
    (h : (components part.fsLabel).tail.foldlM (level wideDot) 0 = some (k + 1)) : ¬Confined part := by
  obtain ⟨front, hlen, hfold⟩ := foldl_enter_of_levels [] h
  rintro ⟨name, hname⟩
  rw [resolved_mountDir] at hname
  have hway := (hfold [dirName part, wide "LinuxDisks"]).symm.trans (Prod.mk.inj hname).2
  have hcount := congrArg List.length hway
  simp only [List.length_append, List.length_cons, List.length_nil, hlen] at hcount
  omega

theorem probe_fsLabel (drive : PhysicalDrive) (part : PartitionInfo) :
    (probePartitionFilesystem drive part).fsLabel = part.fsLabel ∨ ∃ sb : Ext4Superblock,
      (probePartitionFilesystem drive part).fsLabel = sb.sVolumeName.takeWhile (· != 0) := by
  unfold probePartitionFilesystem
  split
  · exact Or.inl rfl
  · dsimp only
    split
    · split
      · exact Or.inr ⟨_, rfl⟩
      · exact Or.inr ⟨_, rfl⟩
    · exact Or.inl rfl

theorem inspectDisk_label {toUtf8 : List UInt16 → List Byte} {drive : PhysicalDrive}
    {diskIndex : UInt32} (h : part ∈ (inspectDisk toUtf8 drive diskIndex).partitions) :
    part.fsLabel.length ≤ 16 ∧ 0 ∉ part.fsLabel := by
  obtain ⟨_, _, _, entry, _, _, rfl⟩ := mem_inspectDisk_partitions.mp h
  have hempty : (layoutPartition toUtf8 diskIndex entry).fsLabel = [] := by
    unfold layoutPartition
    cases entry.style <;> rfl
  rcases probe_fsLabel drive (layoutPartition toUtf8 diskIndex entry) with hkept | ⟨sb, hread⟩
  · rw [hkept, hempty]
    exact ⟨Nat.zero_le _, List.not_mem_nil⟩
  · rw [hread]
    constructor
    · apply (List.takeWhile_sublist _).length_le.trans
      rw [Ext4Superblock.sVolumeName, sb.field_length 120 16 (by decide)]
    · exact fun h0 => by simpa using List.mem_takeWhile_imp h0

/-- A label of the superblock is too short to lead out of `C:\LinuxDisks` and back. -/
theorem confined_iff (h : part.fsLabel.length ≤ 16) :
    Confined part ↔ (components part.fsLabel).tail.foldlM (level wideDot) 1 = some 1 := by
  have henter : (components part.fsLabel).tail.foldl (enter wideDot) [dirName part, wide "LinuxDisks"] =
      (components part.fsLabel).tail.foldl (enter wideDot) ([dirName part] ++ [wide "LinuxDisks"]) := rfl
  rw [Confined, resolved_mountDir, henter]
  cases hlevel : (components part.fsLabel).tail.foldlM (level wideDot) 1 with
  | some k =>
      obtain ⟨front, hlen, hfold⟩ := foldl_enter_of_levels [dirName part] hlevel
      rw [hfold]
      constructor
      · rintro ⟨name, hname⟩
        have hcount := congrArg List.length (Prod.mk.inj hname).2
        simp only [List.length_append, List.length_cons, List.length_nil] at hcount
        exact congrArg some (by omega)
      · rintro ⟨⟩
        obtain ⟨name, rfl⟩ := List.length_eq_one_iff.mp hlen
        exact ⟨name, rfl⟩
  | none =>
      refine iff_of_false ?_ nofun
      rintro ⟨name, hname⟩
      obtain ⟨before, after, hparts, hbefore⟩ := levels_none hlevel
      obtain ⟨front, hlen, hfold⟩ := foldl_enter_of_levels [dirName part] hbefore
      obtain rfl := List.length_eq_zero_iff.mp hlen
      rw [hparts, List.foldl_append, hfold, List.foldl_cons] at hname
      -- the way back would have to spell the name of the root directory once more
      have hroot : wide "LinuxDisks" ∈ after := by
        refine (mem_foldl_enter wideDot [] ?_).resolve_left List.not_mem_nil
        exact (Prod.mk.inj hname).2 ▸ List.mem_cons_of_mem _ (List.mem_singleton_self _)
      have hup := dots_of_levels hbefore Nat.one_pos
      have hsum := sum_splitOnP wideSeparator (widen part.fsLabel)
      rw [← components, widen, List.length_map] at hsum
      obtain ⟨before₁, before₂, rfl⟩ := List.append_of_mem hup
      obtain ⟨after₁, after₂, rfl⟩ := List.append_of_mem hroot
      have hlong : (wide "LinuxDisks").length = 10 := by decide
      cases hall : components part.fsLabel with
      | nil => exact absurd hall (List.splitOnP_ne_nil _ _)
      | cons first parts =>
          rw [hall, List.tail_cons] at hparts
          rw [hall, hparts] at hsum
          simp only [List.map_cons, List.map_append, List.sum_cons, List.sum_append, List.length_cons,
            List.length_nil, hlong] at hsum
          omega

end Places

def labelled (label : List Byte) (partitionNumber : UInt32) : PartitionInfo :=
  { layoutPartition (fun _ => []) 0 ⟨.mbr 0x83 false, 1048576, 16777216, partitionNumber⟩ with
    fsLabel := label }

/-- Whatever labels there are, the mount directories are confined and distinct exactly
when no label leads away from the directory of its partition. -/
theorem mountDirs_safe_iff (labels : Set (List Byte)) :
    ((∀ part : PartitionInfo, part.fsLabel ∈ labels → Confined part) ∧
        ∀ part part' : PartitionInfo, part.fsLabel ∈ labels → part'.fsLabel ∈ labels →
          keyOf part ≠ keyOf part' →
            resolved (getMountDirForPartition part) ≠ resolved (getMountDirForPartition part')) ↔
      ∀ label ∈ labels, Stays label := by
  constructor
  · rintro ⟨hconfined, hdistinct⟩ label hlabel
    rw [Stays]
    cases hlevel : (components label).tail.foldlM (level wideDot) 0 with
    | none =>
        obtain ⟨place, hplace⟩ := resolved_of_leaves hlevel
        refine absurd ?_ (hdistinct (labelled label 1) (labelled label 2) hlabel hlabel
          fun h => absurd (Prod.mk.inj h).2 (show (1 : UInt32) ≠ 2 by decide))
        rw [hplace (labelled label 1) rfl, hplace (labelled label 2) rfl]
    | some k =>
        cases k with
        | zero => rfl
        | succ k =>
            exact absurd (hconfined (labelled label 1) hlabel) (not_confined_of_deeper hlevel)
  · intro h
    refine ⟨fun part hpart => ⟨_, resolved_of_stays (h _ hpart)⟩, ?_⟩
    intro part part' hpart hpart' hkey heq
    rw [resolved_of_stays (h _ hpart), resolved_of_stays (h _ hpart')] at heq
    exact hkey (dirName_injective (List.cons.inj (Prod.mk.inj heq).2).1)

def escapingLabel : List Byte := asciiBytes "\\..\\..\\Windows"

/-- Two partitions with this label are both mounted at `C:\Windows`. -/
theorem label_leads_outside : escapingLabel.length ≤ 16 ∧
    ¬Confined (labelled escapingLabel 1) ∧
    keyOf (labelled escapingLabel 1) ≠ keyOf (labelled escapingLabel 2) ∧
    resolved (getMountDirForPartition (labelled escapingLabel 1)) =
      resolved (getMountDirForPartition (labelled escapingLabel 2)) := by
  have hplace : resolved (getMountDirForPartition (labelled escapingLabel 1)) =
      (wide "C:", [wide "Windows"]) := by
    decide +kernel
  refine ⟨by decide, ?_, by decide, by decide +kernel⟩
  rintro ⟨name, hname⟩
  cases hplace.symm.trans hname

end Linux2Win.MountDirs
