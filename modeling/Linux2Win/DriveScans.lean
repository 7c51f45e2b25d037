import Linux2Win.Enumerator

namespace Linux2Win.DriveScans

open Partitions Enumerator

variable (inspect : UInt32 → Option DiskInfo)

def Absent (i : Nat) : Prop := inspect (UInt32.ofNat i) = none

def drivesFrom (first count : Nat) : List DiskInfo :=
  (List.range' first count).filterMap fun i => inspect (UInt32.ofNat i)

/-- Where the scan gives up: at an index from 4 on that ends three absent ones. -/
def GivesUp (i : Nat) : Prop :=
  4 ≤ i ∧ Absent inspect i ∧ Absent inspect (i - 1) ∧ Absent inspect (i - 2)

/-- No drive lies behind an index where the scan gives up. -/
def Compact (first count : Nat) : Prop :=
  ∀ j, first ≤ j → j < first + count → ¬Absent inspect j →
    ∀ i, first ≤ i → i < j → ¬GivesUp inspect i

structure Counts (i misses : Nat) : Prop where
  absent : ∀ m < misses, Absent inspect (i - 1 - m)
  le : misses ≤ i
  stops : misses < i → ¬Absent inspect (i - 1 - misses)

variable {inspect} {i misses count : Nat}

theorem Counts.present (h : ¬Absent inspect i) : Counts inspect (i + 1) 0 :=
  ⟨fun _ hm => absurd hm (Nat.not_lt_zero _), Nat.zero_le _, fun _ => h⟩

theorem Counts.miss (h : Counts inspect i misses) (hmiss : Absent inspect i) :
    Counts inspect (i + 1) (misses + 1) := by
  refine ⟨fun m hm => ?_, Nat.succ_le_succ h.le, fun hlt => ?_⟩
  · cases m with
    | zero => exact hmiss
    | succ m =>
        have habsent := h.absent m (Nat.lt_of_succ_lt_succ hm)
        rwa [show i + 1 - 1 - (m + 1) = i - 1 - m by omega]
  · rw [show i + 1 - 1 - (misses + 1) = i - 1 - misses by omega]
    exact h.stops (Nat.lt_of_succ_lt_succ hlt)

theorem Counts.gives_up_iff (h : Counts inspect i misses) (hmiss : Absent inspect i) :
    3 ≤ misses + 1 ∧ 4 ≤ i ↔ GivesUp inspect i := by
  constructor
  · rintro ⟨htwo, hfour⟩
    exact ⟨hfour, hmiss, h.absent 0 (by omega), h.absent 1 (by omega)⟩
  · rintro ⟨hfour, _, hone, htwo⟩
    refine ⟨?_, hfour⟩
    by_contra hfew
    obtain rfl | rfl : misses = 0 ∨ misses = 1 := by omega
    · exact h.stops (by omega) hone
    · exact h.stops (by omega) htwo

theorem drivesFrom_eq_nil :
    drivesFrom inspect i count = [] ↔ ∀ j, i ≤ j → j < i + count → Absent inspect j := by
  rw [drivesFrom, List.filterMap_eq_nil_iff]
  simp only [List.mem_range'_1, and_imp]
  rfl

theorem compact_succ (hgoes : ¬GivesUp inspect i) :
    Compact inspect i (count + 1) ↔ Compact inspect (i + 1) count := by
  constructor
  · intro h j hfrom hto hpresent k hk hlt
    exact h j (by omega) (by omega) hpresent k (by omega) hlt
  · intro h j hfrom hto hpresent k hk hlt
    rcases hk.lt_or_eq with hk | rfl
    · exact h j (by omega) (by omega) hpresent k hk hlt
    · exact hgoes

theorem compact_stopped (hstops : GivesUp inspect i) :
    Compact inspect i (count + 1) ↔ ∀ j, i + 1 ≤ j → j < i + 1 + count → Absent inspect j := by
  constructor
  · intro h j hfrom hto
    by_contra hpresent
    exact h j (by omega) (by omega) hpresent i le_rfl hfrom hstops
  · intro h j hfrom hto hpresent k hk hlt
    exact absurd (h j (by omega) (by omega)) hpresent

theorem enumerateLoop_iff (hcounts : Counts inspect i misses) (hlast : i + count ≤ 32) :
    enumerateLoop inspect count (UInt32.ofNat i) misses = drivesFrom inspect i count ↔
      Compact inspect i count := by
  induction count generalizing i misses with
  | zero => exact iff_of_true rfl fun j hfrom hto => absurd hto (by omega)
  | succ count ih =>
      have hnext : UInt32.ofNat i + 1 = UInt32.ofNat (i + 1) := (UInt32.ofNat_add i 1).symm
      have hdrives : drivesFrom inspect i (count + 1) =
          (inspect (UInt32.ofNat i)).toList ++ drivesFrom inspect (i + 1) count := by
        rw [drivesFrom, List.range'_succ, List.filterMap_cons]
        cases inspect (UInt32.ofNat i) <;> rfl
      rw [enumerateLoop, hdrives, hnext]
      cases hdisk : inspect (UInt32.ofNat i) with
      | some disk =>
          have hpresent : ¬Absent inspect i := by rw [Absent, hdisk]; exact Option.some_ne_none disk
          have hrest := ih (Counts.present hpresent) (by omega)
          rw [compact_succ fun h => hpresent h.2.1, ← hrest]
          exact List.cons_inj_right disk
      | none =>
          have hgives := hcounts.gives_up_iff hdisk
          have hcond : (decide (misses + 1 ≥ 3) && decide (UInt32.ofNat i ≥ 4)) = true ↔
              GivesUp inspect i := by
            rw [← hgives, Bool.and_eq_true, decide_eq_true_eq, decide_eq_true_eq, ge_iff_le, ge_iff_le,
              UInt32.le_iff_toNat_le, UInt32.toNat_ofNat', Nat.mod_eq_of_lt (by omega)]
            rfl
          by_cases hstops : GivesUp inspect i
          · rw [if_pos (hcond.mpr hstops), compact_stopped hstops, ← drivesFrom_eq_nil]
            exact eq_comm
          · rw [if_neg (mt hcond.mp hstops), compact_succ hstops]
            exact ih (hcounts.miss hdisk) (by omega)

/-- The enumeration is that of all drives below 32, in their order, exactly if none of them
has an index above three absent ones in a row of which the last is 4 or more. -/
theorem enumerateAllDisks_iff (inspect : UInt32 → Option DiskInfo) :
    enumerateAllDisks inspect = drivesFrom inspect 0 32 ↔
      ∀ j < 32, ¬Absent inspect j → ∀ i < j, ¬GivesUp inspect i := by
  have hstart : Counts inspect 0 0 :=
    ⟨fun _ hm => absurd hm (Nat.not_lt_zero _), le_rfl, fun h => absurd h (Nat.lt_irrefl 0)⟩
  refine (enumerateLoop_iff hstart (by decide)).trans ⟨fun h j hj hpresent i hi => ?_, fun h => ?_⟩
  · exact h j (Nat.zero_le j) (by omega) hpresent i (Nat.zero_le i) hi
  · exact fun j _ hj hpresent i _ hi => h j (by omega) hpresent i hi

def loneDrive : DiskInfo :=
  ⟨5, 33554432, 512, false, [layoutPartition (fun _ => []) 5 ⟨.mbr 0x83 false, 1048576, 16777216, 1⟩]⟩

/-- Only PhysicalDrive5 is left. -/
def inspectLone (i : UInt32) : Option DiskInfo := if i = 5 then some loneDrive else none

theorem lone_drive_missed :
    drivesFrom inspectLone 0 32 = [loneDrive] ∧ enumerateAllDisks inspectLone = [] ∧
      mountablePartitions loneDrive ≠ [] ∧ getAllMountablePartitions inspectLone = [] ∧
      enumerateAllDisks inspectLone ≠ drivesFrom inspectLone 0 32 := by
  have hone : drivesFrom inspectLone 0 32 = [loneDrive] := rfl
  have hnone : enumerateAllDisks inspectLone = [] := rfl
  refine ⟨hone, hnone, by decide +kernel, ?_, ?_⟩
  · rw [getAllMountablePartitions, hnone]
    rfl
  · rw [hnone, hone]
    exact (List.cons_ne_nil _ _).symm

end Linux2Win.DriveScans
