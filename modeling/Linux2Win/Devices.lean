import Linux2Win.Bytes
import Mathlib.Data.List.Range
import Mathlib.Control.Lawful

namespace Linux2Win.Devices

open Bytes

/-- Where the model stops following the program: an access outside a buffer, a
division by zero, or a recursion that has not returned within the fuel. -/
inductive Fault
  | outOfBounds
  | divideByZero
  | outOfFuel
  deriving DecidableEq, Repr

/-- An opened device handle with its partition window. A size of zero leaves the
window unbounded. The sector size is never set to anything but 512. -/
structure BlockDevice where
  isOpen : Bool
  noBuffering : Bool
  partitionOffset : UInt64
  partitionSize : UInt64
  sectorSize : UInt32
  sectorSize_eq : sectorSize = 512

def opened (noBuffering : Bool) (partitionOffset partitionSize : UInt64) : BlockDevice :=
  ⟨true, noBuffering, partitionOffset, partitionSize, 512, rfl⟩

/-- `createFile flag` tells whether the handle could be opened, with
`FILE_FLAG_NO_BUFFERING` when the flag is set. -/
def openReadOnly (createFile : Bool → Bool) (partitionOffset partitionSize : UInt64) :
    Option BlockDevice :=
  if createFile true then some (opened true partitionOffset partitionSize)
  else if createFile false then some (opened false partitionOffset partitionSize)
  else none

theorem openReadOnly_isSome (createFile : Bool → Bool) (partitionOffset partitionSize : UInt64) :
    (openReadOnly createFile partitionOffset partitionSize).isSome =
      (createFile true || createFile false) := by
  rw [openReadOnly]
  cases createFile true <;> cases createFile false <;> rfl

structure Request where
  alignedStart : UInt64
  offsetInAligned : UInt64
  alignedSize : UInt64

/-- The checks and the alignment that `read` does before it touches the device. -/
def request (w : BlockDevice) (offset size : UInt64) : Option Request :=
  if !w.isOpen || size == 0 then none
  else if w.partitionSize > 0 && offset + size > w.partitionSize then none
  else
    let sector := w.sectorSize.toUInt64
    let absoluteOffset := w.partitionOffset + offset
    let alignedStart := absoluteOffset / sector * sector
    let alignedEnd := (absoluteOffset + size + sector - 1) / sector * sector
    some ⟨alignedStart, absoluteOffset - alignedStart, alignedEnd - alignedStart⟩

section Read

variable {m : Type → Type} [Monad m] {β : Type}

/-- What `read` does with the bytes that `ReadFile` has delivered. -/
def deliver (r : Request) (size : UInt64) (alignedBuffer : List β) :
    Except Fault (Option (List β)) :=
  if alignedBuffer.length < (r.offsetInAligned + size).toNat then .ok none
  else
    let copied := (alignedBuffer.drop r.offsetInAligned.toNat).take size.toNat
    if copied.length = size.toNat then .ok (some copied) else .error .outOfBounds

/-- `readFile position count` stands for `SetFilePointerEx` followed by `ReadFile`.
The read looks at no byte it copies, so it is stated for any type of bytes: run on
positions in place of bytes it says which device positions it copies. -/
def read (readFile : UInt64 → UInt32 → m (Option (List β))) (w : BlockDevice)
    (offset size : UInt64) : ExceptT Fault m (Option (List β)) :=
  match request w offset size with
  | none => pure none
  | some r => do
    match ← readFile r.alignedStart r.alignedSize.toUInt32 with
    | none => pure none
    | some alignedBuffer => ExceptT.mk (pure (deliver r size alignedBuffer))

end Read

abbrev Device (m : Type → Type) := UInt64 → UInt64 → ExceptT Fault m (Option (List Byte))

def readBlock {m : Type → Type} (dev : Device m) (blockIndex : UInt64) (blockSize : UInt32) :
    ExceptT Fault m (Option (List Byte)) :=
  dev (blockIndex * blockSize.toUInt64) blockSize.toUInt64

/-- Device content that does not change, with the requests that fail. Sizes and
positions are `LARGE_INTEGER`s. -/
structure Disk where
  size : Nat
  size_le : size ≤ 2 ^ 63
  byte : Nat → Byte
  fails : UInt64 → UInt32 → Bool

namespace Disk

/-- A disk whose requests all succeed. -/
def ofPieces (size : UInt32) (pieces : List (Nat × List Byte)) : Disk :=
  ⟨size.toNat, Nat.le_trans (Nat.le_of_lt size.toNat_lt) (by decide), patched pieces, fun _ _ => false⟩

/-- The positions a request delivers: none for a negative file pointer or a
failing request, else those up to the requested count that the device has. -/
def readPositions (disk : Disk) (position : UInt64) (count : UInt32) : Id (Option (List Nat)) :=
  if 2 ^ 63 ≤ position.toNat || disk.fails position count then none
  else some (List.range' position.toNat (min count.toNat (disk.size - position.toNat)))

def readFile (disk : Disk) (position : UInt64) (count : UInt32) : Id (Option (List Byte)) :=
  (disk.readPositions position count).map (List.map disk.byte)

def device (disk : Disk) (w : BlockDevice) : Device Id := fun offset size =>
  read disk.readFile w offset size

def copied (disk : Disk) (w : BlockDevice) (offset size : UInt64) : Option (List Nat) :=
  match (read disk.readPositions w offset size).run with
  | .ok r => r
  | .error _ => none

end Disk

theorem mul_div_toNat (a b : UInt64) : (a / b * b).toNat = a.toNat / b.toNat * b.toNat := by
  rw [UInt64.toNat_mul, UInt64.toNat_div]
  exact Nat.mod_eq_of_lt (lt_of_le_of_lt (Nat.div_mul_le_self _ _) a.toNat_lt)

theorem sub_div_mul (a b : UInt64) : (a - a / b * b).toNat = a.toNat % b.toNat := by
  have hle : (a / b * b).toNat ≤ a.toNat := by
    rw [mul_div_toNat]; exact Nat.div_mul_le_self _ _
  rw [UInt64.toNat_sub_of_le _ _ hle, mul_div_toNat]
  have h := Nat.div_add_mod a.toNat b.toNat
  rw [Nat.mul_comm] at h
  omega

theorem take_drop_range' (s n k l : Nat) (h : (((List.range' s n).drop k).take l).length = l) :
    ((List.range' s n).drop k).take l = List.range' (s + k) l := by
  simp only [List.length_take, List.length_drop, List.length_range'] at h
  rw [List.drop_range', Nat.mul_one, List.take_range'_of_length_ge (by omega)]

theorem sector_toNat (w : BlockDevice) : w.sectorSize.toUInt64.toNat = 512 := by
  rw [w.sectorSize_eq]
  rfl

theorem request_eq_some_iff {w : BlockDevice} {offset size : UInt64} {r : Request} :
    request w offset size = some r ↔ (w.isOpen = true ∧ 0 < size.toNat) ∧
      (0 < w.partitionSize → offset + size ≤ w.partitionSize) ∧
      Request.mk ((w.partitionOffset + offset) / w.sectorSize.toUInt64 * w.sectorSize.toUInt64)
        (w.partitionOffset + offset -
          (w.partitionOffset + offset) / w.sectorSize.toUInt64 * w.sectorSize.toUInt64)
        ((w.partitionOffset + offset + size + w.sectorSize.toUInt64 - 1) / w.sectorSize.toUInt64 *
            w.sectorSize.toUInt64 -
          (w.partitionOffset + offset) / w.sectorSize.toUInt64 * w.sectorSize.toUInt64) = r := by
  rw [request, Option.ite_none_left_eq_some, Option.ite_none_left_eq_some, Option.some_inj]
  apply and_congr
  · rw [Nat.pos_iff_ne_zero, ne_eq, ← UInt64.toNat_zero, UInt64.toNat_inj]
    simp
  · apply and_congr_left
    intro _
    simp

theorem request_eq_some {w : BlockDevice} {offset size : UInt64} {r : Request}
    (h : request w offset size = some r) :
    0 < size.toNat ∧ (0 < w.partitionSize → offset + size ≤ w.partitionSize) ∧
      r.alignedStart.toNat + r.offsetInAligned.toNat = (w.partitionOffset + offset).toNat := by
  obtain ⟨⟨_, hpos⟩, hwin, rfl⟩ := request_eq_some_iff.mp h
  refine ⟨hpos, hwin, ?_⟩
  dsimp only
  rw [sub_div_mul, mul_div_toNat, sector_toNat]
  exact Nat.div_add_mod' _ _

theorem deliver_positions {r : Request} {size : UInt64} {n : Nat} {ps : List Nat}
    (h : deliver r size (List.range' r.alignedStart.toNat n) = .ok (some ps)) :
    ps = List.range' (r.alignedStart.toNat + r.offsetInAligned.toNat) size.toNat ∧
      (0 < size.toNat → r.offsetInAligned.toNat + size.toNat ≤ n) := by
  dsimp only [deliver] at h
  split at h
  · cases h
  · split at h
    · rename_i hc
      cases h
      refine ⟨take_drop_range' _ _ _ _ hc, fun hs => ?_⟩
      simp only [List.length_take, List.length_drop, List.length_range'] at hc
      omega
    · cases h

theorem read_run (readFile : UInt64 → UInt32 → Id (Option (List β))) (w : BlockDevice)
    (offset size : UInt64) : (read readFile w offset size).run =
      match request w offset size with
      | none => .ok none
      | some r => match readFile r.alignedStart r.alignedSize.toUInt32 with
        | none => .ok none
        | some b => deliver r size b := by
  unfold read
  cases request w offset size <;> rfl

theorem deliver_map {α β : Type} (f : α → β) (r : Request) (size : UInt64) (buffer : List α) :
    deliver r size (buffer.map f) = (deliver r size buffer).map (Option.map (List.map f)) := by
  dsimp only [deliver]
  simp only [List.length_map, ← List.map_drop, ← List.map_take]
  split
  · rfl
  · split <;> rfl

theorem device_eq_some_iff {disk : Disk} {w : BlockDevice} {offset size : UInt64} {b : List Byte} :
    disk.device w offset size = pure (some b) ↔
      ∃ ps, disk.copied w offset size = some ps ∧ b = ps.map disk.byte := by
  change (read disk.readFile w offset size).run = .ok (some b) ↔ _
  unfold Disk.copied
  rw [read_run, read_run]
  -- neither a false return nor a fault has copied anything
  have hnone : ∀ {x : Except Fault (Option (List Byte))}, x ≠ .ok (some b) →
      (x = .ok (some b) ↔ ∃ ps : List Nat, none = some ps ∧ b = ps.map disk.byte) := by
    intro x hx
    apply iff_of_false hx
    rintro ⟨_, ⟨⟩, _⟩
  cases request w offset size with
  | none => exact hnone nofun
  | some r =>
      simp only [Disk.readFile]
      cases disk.readPositions r.alignedStart r.alignedSize.toUInt32 with
      | none => exact hnone nofun
      | some ps =>
          simp only [Option.map_some, deliver_map]
          cases deliver r size ps with
          | error f => exact hnone nofun
          | ok found =>
              cases found with
              | none => exact hnone nofun
              | some ps =>
                  constructor
                  · rintro ⟨⟩
                    exact ⟨ps, rfl, rfl⟩
                  · rintro ⟨_, ⟨⟩, rfl⟩
                    rfl

theorem copied_eq_some {disk : Disk} {w : BlockDevice} {offset size : UInt64} {ps : List Nat}
    (h : disk.copied w offset size = some ps) :
    ps = List.range' (w.partitionOffset + offset).toNat size.toNat ∧ 0 < size.toNat ∧
      (w.partitionOffset + offset).toNat + size.toNat ≤ disk.size ∧
      (0 < w.partitionSize → offset + size ≤ w.partitionSize) := by
  unfold Disk.copied at h
  rw [read_run] at h
  cases hr : request w offset size with
  | none => simp [hr] at h
  | some r =>
      obtain ⟨hsize, hwin, habs⟩ := request_eq_some hr
      simp only [hr, Disk.readPositions] at h
      split at h
      · rename_i res hres
        split at hres
        · cases hres; cases h
        · rename_i b hb
          split at hb
          · cases hb
          · cases hb
            rw [h] at hres
            obtain ⟨hps, hlen⟩ := deliver_positions hres
            rw [habs] at hps
            have := hlen hsize
            exact ⟨hps, hsize, by omega, hwin⟩
      · cases h

theorem copied_answered {disk : Disk} {w : BlockDevice} {offset size : UInt64} {ps : List Nat}
    (h : disk.copied w offset size = some ps) : w.isOpen = true ∧
      ∀ r, request w offset size = some r →
        disk.fails r.alignedStart r.alignedSize.toUInt32 = false := by
  unfold Disk.copied at h
  rw [read_run] at h
  cases hr : request w offset size with
  | none => simp [hr] at h
  | some r =>
      refine ⟨(request_eq_some_iff.mp hr).1.1, ?_⟩
      rintro _ ⟨⟩
      by_contra hfails
      have hnone : disk.readPositions r.alignedStart r.alignedSize.toUInt32 = none := by
        rw [Disk.readPositions, if_pos]
        simp [Bool.eq_true_of_not_eq_false hfails]
      simp [hr, hnone] at h

/-- A read stays inside its window exactly when the sum of offset and size does
not wrap around: the window check compares the wrapped sum. -/
theorem copied_in_window_iff {disk : Disk} {w : BlockDevice} {offset size : UInt64} {ps : List Nat}
    (hpos : 0 < w.partitionSize)
    (hwin : w.partitionOffset.toNat + w.partitionSize.toNat ≤ disk.size)
    (h : disk.copied w offset size = some ps) :
    (∀ p ∈ ps, w.partitionOffset.toNat ≤ p ∧
      p < w.partitionOffset.toNat + w.partitionSize.toNat) ↔
      offset.toNat + size.toNat < 2 ^ 64 := by
  obtain ⟨rfl, hsize, hdisk, hchk⟩ := copied_eq_some h
  have hle := disk.size_le
  have hps := UInt64.le_iff_toNat_le.mp (hchk hpos)
  have ho := offset.toNat_lt
  have hz := w.partitionSize.toNat_lt
  simp only [List.mem_range'_1, UInt64.toNat_add] at hdisk hps ⊢
  constructor
  · intro hin
    have hfirst := hin _ ⟨Nat.le_refl _, Nat.lt_add_of_pos_right hsize⟩
    have hlast := hin ((w.partitionOffset.toNat + offset.toNat) % 2 ^ 64 + (size.toNat - 1))
      ⟨by omega, by omega⟩
    omega
  · intro hno p hp
    omega

theorem request_offset_lt {w : BlockDevice} {offset size : UInt64} {r : Request}
    (h : request w offset size = some r) : r.offsetInAligned.toNat < 512 := by
  obtain ⟨_, _, rfl⟩ := request_eq_some_iff.mp h
  dsimp only
  rw [sub_div_mul, sector_toNat]
  exact Nat.mod_lt _ (by decide)

theorem Disk.read_whole (disk : Disk) (w : BlockDevice) (offset : UInt64) {size : UInt64}
    (hsize : size.toNat < 2 ^ 63) : ∃ r, disk.device w offset size = pure r ∧
      ∀ b, r = some b → b.length = size.toNat := by
  change ∃ r, (read disk.readFile w offset size).run = _ ∧ _
  rw [read_run]
  cases hr : request w offset size with
  | none => exact ⟨none, rfl, nofun⟩
  | some r =>
      have hoff := request_offset_lt hr
      have hsum : (r.offsetInAligned + size).toNat = r.offsetInAligned.toNat + size.toNat := by
        rw [UInt64.toNat_add, Nat.mod_eq_of_lt (by omega)]
      cases hb : disk.readFile r.alignedStart r.alignedSize.toUInt32 with
      | none => exact ⟨none, by simp [hb]; rfl, nofun⟩
      | some b =>
          simp only [hb, deliver, hsum]
          by_cases hlen : b.length < r.offsetInAligned.toNat + size.toNat
          · exact ⟨none, by rw [if_pos hlen]; rfl, nofun⟩
          · have hcopied : ((b.drop r.offsetInAligned.toNat).take size.toNat).length = size.toNat := by
              simp only [List.length_take, List.length_drop]
              omega
            refine ⟨some ((b.drop r.offsetInAligned.toNat).take size.toNat), ?_, ?_⟩
            · rw [if_neg hlen, if_pos hcopied]; rfl
            · rintro _ ⟨⟩
              exact hcopied

def InWindow (disk : Disk) (w : BlockDevice) (pos size : Nat) : Prop :=
  w.partitionOffset.toNat + pos + size ≤ disk.size ∧
    (0 < w.partitionSize → pos + size ≤ w.partitionSize.toNat)

section Inside

variable {disk : Disk} {w : BlockDevice} {offset size : UInt64}

theorem round_toNat {x n k : UInt64} (hk : k.toNat = 512) (hsmall : x.toNat + n.toNat + 512 < 2 ^ 64) :
    (x + n + k - 1).toNat = x.toNat + n.toNat + 511 := by
  have hsum : (x + n + k).toNat = x.toNat + n.toNat + 512 := by
    rw [UInt64.toNat_add, UInt64.toNat_add, hk, Nat.mod_eq_of_lt (by omega),
      Nat.mod_eq_of_lt (by omega)]
  rw [UInt64.toNat_sub_of_le, hsum]
  · rfl
  · rw [UInt64.le_iff_toNat_le, hsum]
    change 1 ≤ _
    omega

/-- A request lies on sector boundaries, around the bytes asked for and by less than a
sector beyond them on each side. -/
structure Encloses (w : BlockDevice) (r : Request) (start size : Nat) : Prop where
  starts : w.sectorSize.toNat ∣ r.alignedStart.toNat
  ends : w.sectorSize.toNat ∣ r.alignedStart.toNat + r.alignedSize.toNat
  offset_eq : r.alignedStart.toNat + r.offsetInAligned.toNat = start
  before : r.offsetInAligned.toNat < w.sectorSize.toNat
  covers : start + size ≤ r.alignedStart.toNat + r.alignedSize.toNat
  behind : r.alignedStart.toNat + r.alignedSize.toNat < start + size + w.sectorSize.toNat

theorem request_checked (hopen : w.isOpen = true) (hpos : 0 < size.toNat)
    (hchecked : 0 < w.partitionSize → offset + size ≤ w.partitionSize)
    (hfits : (w.partitionOffset + offset).toNat + size.toNat + 512 < 2 ^ 64) :
    ∃ r, request w offset size = some r ∧
      Encloses w r (w.partitionOffset + offset).toNat size.toNat := by
  have h512 := sector_toNat w
  have hsector : w.sectorSize.toNat = 512 := by rw [w.sectorSize_eq]; rfl
  have hend := round_toNat (x := w.partitionOffset + offset) (n := size) h512 hfits
  have hstart := sub_div_mul (w.partitionOffset + offset) w.sectorSize.toUInt64
  have hfrom := mul_div_toNat (w.partitionOffset + offset) w.sectorSize.toUInt64
  have hto := mul_div_toNat (w.partitionOffset + offset + size + w.sectorSize.toUInt64 - 1)
    w.sectorSize.toUInt64
  rw [h512] at hstart hfrom
  rw [hend, h512] at hto
  have hsub : ((w.partitionOffset + offset + size + w.sectorSize.toUInt64 - 1) /
      w.sectorSize.toUInt64 * w.sectorSize.toUInt64 -
      (w.partitionOffset + offset) / w.sectorSize.toUInt64 * w.sectorSize.toUInt64).toNat =
      ((w.partitionOffset + offset).toNat + size.toNat + 511) / 512 * 512 -
        (w.partitionOffset + offset).toNat / 512 * 512 := by
    rw [UInt64.toNat_sub_of_le, hto, hfrom]
    rw [UInt64.le_iff_toNat_le, hto, hfrom]
    omega
  refine ⟨_, request_eq_some_iff.mpr ⟨⟨hopen, hpos⟩, hchecked, rfl⟩, ?_⟩
  constructor <;> dsimp only <;> simp only [hstart, hfrom, hsub, hsector] <;> omega

theorem absolute_toNat (hno : w.partitionOffset.toNat + offset.toNat < 2 ^ 64) :
    (w.partitionOffset + offset).toNat = w.partitionOffset.toNat + offset.toNat := by
  rw [UInt64.toNat_add, Nat.mod_eq_of_lt hno]

theorem checked_of_window (hno : offset.toNat + size.toNat < 2 ^ 64)
    (hwin : 0 < w.partitionSize → offset.toNat + size.toNat ≤ w.partitionSize.toNat) :
    0 < w.partitionSize → offset + size ≤ w.partitionSize := by
  intro hsized
  rw [UInt64.le_iff_toNat_le, UInt64.toNat_add, Nat.mod_eq_of_lt hno]
  exact hwin hsized

theorem request_encloses (hopen : w.isOpen = true) (hpos : 0 < size.toNat)
    (hwin : 0 < w.partitionSize → offset.toNat + size.toNat ≤ w.partitionSize.toNat)
    (hfits : w.partitionOffset.toNat + offset.toNat + size.toNat + 512 < 2 ^ 64) :
    ∃ r, request w offset size = some r ∧
      Encloses w r (w.partitionOffset.toNat + offset.toNat) size.toNat := by
  have habs : (w.partitionOffset + offset).toNat = w.partitionOffset.toNat + offset.toNat :=
    absolute_toNat (by omega)
  rw [← habs]
  exact request_checked hopen hpos (checked_of_window (by omega) hwin) (by omega)

theorem Disk.copied_checked (hopen : w.isOpen = true) (hpos : 0 < size.toNat)
    (hsmall : size.toNat < 2 ^ 31) (hchecked : 0 < w.partitionSize → offset + size ≤ w.partitionSize)
    (hdisk : (w.partitionOffset + offset).toNat + size.toNat ≤ disk.size)
    (hanswers : ∀ r, request w offset size = some r →
      disk.fails r.alignedStart r.alignedSize.toUInt32 = false) :
    disk.copied w offset size =
      some (List.range' (w.partitionOffset + offset).toNat size.toNat) := by
  have hle := disk.size_le
  obtain ⟨r, hr, henclosed⟩ := request_checked hopen hpos hchecked (by omega)
  have hsector : w.sectorSize.toNat = 512 := by rw [w.sectorSize_eq]; rfl
  have hstart := henclosed.offset_eq
  have hbefore := henclosed.before
  have hcovers := henclosed.covers
  have hbehind := henclosed.behind
  have hcount : r.alignedSize.toUInt32.toNat = r.alignedSize.toNat := by
    rw [UInt64.toNat_toUInt32, Nat.mod_eq_of_lt (by omega)]
  have hsum : (r.offsetInAligned + size).toNat = r.offsetInAligned.toNat + size.toNat := by
    rw [UInt64.toNat_add, Nat.mod_eq_of_lt (by omega)]
  have hpositions : disk.readPositions r.alignedStart r.alignedSize.toUInt32 =
      some (List.range' r.alignedStart.toNat
        (min r.alignedSize.toUInt32.toNat (disk.size - r.alignedStart.toNat))) := by
    rw [Disk.readPositions, hanswers r hr, if_neg]
    simp only [Bool.or_false, decide_eq_true_eq]
    omega
  have hlength : (((List.range' r.alignedStart.toNat
      (min r.alignedSize.toUInt32.toNat (disk.size - r.alignedStart.toNat))).drop
        r.offsetInAligned.toNat).take size.toNat).length = size.toNat := by
    simp only [List.length_take, List.length_drop, List.length_range']
    omega
  rw [Disk.copied, read_run, hr]
  simp only [hpositions, deliver]
  rw [if_neg (by rw [List.length_range', hsum]; omega), if_pos hlength, take_drop_range' _ _ _ _ hlength,
    hstart]

theorem Disk.copied_inside (hopen : w.isOpen = true) (hpos : 0 < size.toNat)
    (hsmall : size.toNat < 2 ^ 31) (hin : InWindow disk w offset.toNat size.toNat)
    (hanswers : ∀ position count, disk.fails position count = false) :
    disk.copied w offset size =
      some (List.range' (w.partitionOffset.toNat + offset.toNat) size.toNat) := by
  obtain ⟨hdisk, hwin⟩ := hin
  have hle := disk.size_le
  have habs : (w.partitionOffset + offset).toNat = w.partitionOffset.toNat + offset.toNat :=
    absolute_toNat (by omega)
  rw [← habs] at hdisk ⊢
  exact disk.copied_checked hopen hpos hsmall (checked_of_window (by omega) hwin) hdisk
    fun _ _ => hanswers _ _

theorem Disk.read_inside (hopen : w.isOpen = true) (hpos : 0 < size.toNat)
    (hsmall : size.toNat < 2 ^ 31) (hin : InWindow disk w offset.toNat size.toNat)
    (hanswers : ∀ position count, disk.fails position count = false) :
    disk.device w offset size = pure (some
      ((List.range' (w.partitionOffset.toNat + offset.toNat) size.toNat).map disk.byte)) :=
  device_eq_some_iff.mpr ⟨_, Disk.copied_inside hopen hpos hsmall hin hanswers, rfl⟩

end Inside

end Linux2Win.Devices
