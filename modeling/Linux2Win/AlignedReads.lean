import Linux2Win.FileData
import Linux2Win.Enumerator
import Linux2Win.Programs

namespace Linux2Win.AlignedReads

open Bytes Devices Ext4Types Reader FileData Programs

section Operations

variable {m : Type → Type} [Monad m]

/-- `read` with the caller's buffer, which is none for a null pointer: what it returns, and
what it leaves in the buffer. -/
def readInto (readFile : UInt64 → UInt32 → m (Option (List Byte))) (w : BlockDevice) (offset : UInt64)
    (buffer : Option (List Byte)) (size : UInt64) : ExceptT Fault m (Bool × List Byte) := do
  match buffer with
  | none => return (false, [])
  | some buffer =>
    match ← read readFile w offset size with
    | none => return (false, buffer)
    | some bytes => return (true, overlay bytes buffer)

end Operations

def Answers (disk : Disk) : Prop :=
  ∀ position count, 512 ∣ position.toNat → disk.fails position count = false

section Reads

variable {disk : Disk} {w : BlockDevice} {offset size : UInt64} {r : Request}

theorem deliver_range (hsum : r.offsetInAligned.toNat + size.toNat < 2 ^ 64) (byte : Nat → Byte) (n : Nat) :
    deliver r size ((List.range' r.alignedStart.toNat n).map byte) =
      .ok (if n < r.offsetInAligned.toNat + size.toNat then none
        else some ((List.range' (r.alignedStart.toNat + r.offsetInAligned.toNat) size.toNat).map byte)) := by
  have hsumNat : (r.offsetInAligned + size).toNat = r.offsetInAligned.toNat + size.toNat := by
    rw [UInt64.toNat_add, Nat.mod_eq_of_lt hsum]
  rw [deliver_map, deliver, List.length_range', hsumNat]
  split
  · rfl
  · have hlength : (((List.range' r.alignedStart.toNat n).drop r.offsetInAligned.toNat).take
        size.toNat).length = size.toNat := by
      simp only [List.length_take, List.length_drop, List.length_range']
      omega
    dsimp only
    rw [if_pos hlength, take_drop_range' _ _ _ _ hlength]
    rfl

theorem read_delivers (hanswers : Answers disk) (hr : request w offset size = some r)
    {start : Nat} (h : Encloses w r start size.toNat) (hfits : start + size.toNat + 511 < 2 ^ 63) :
    (read disk.readFile w offset size).run =
      .ok (if min (r.alignedSize.toNat % 2 ^ 32) (disk.size - r.alignedStart.toNat) <
          r.offsetInAligned.toNat + size.toNat then none
        else some ((List.range' start size.toNat).map disk.byte)) := by
  have hstarts := h.starts
  have hoffset := h.offset_eq
  rw [w.sectorSize_eq] at hstarts
  have hpositions : disk.readFile r.alignedStart r.alignedSize.toUInt32 =
      some ((List.range' r.alignedStart.toNat
        (min (r.alignedSize.toNat % 2 ^ 32) (disk.size - r.alignedStart.toNat))).map disk.byte) := by
    rw [Disk.readFile, Disk.readPositions, hanswers _ _ hstarts, if_neg]
    · rw [UInt64.toNat_toUInt32]
      rfl
    · simp only [Bool.or_false, decide_eq_true_eq]
      omega
  rw [read_run, hr]
  dsimp only
  rw [hpositions]
  dsimp only
  rw [deliver_range (by omega), hoffset]

def Served (disk : Disk) (r : Request) (start size : Nat) : Prop :=
  r.alignedSize.toNat < 2 ^ 32 ∧ start + size ≤ disk.size

variable (disk) in
/-- A request whose length does not fit is truncated by 2^32 at least, which is more than
the sector that it reaches beyond the bytes asked for. -/
theorem short_iff {start : Nat} (h : Encloses w r start size.toNat) (hpos : 0 < size.toNat) :
    min (r.alignedSize.toNat % 2 ^ 32) (disk.size - r.alignedStart.toNat) <
        r.offsetInAligned.toNat + size.toNat ↔ ¬Served disk r start size.toNat := by
  have hsector : w.sectorSize.toNat = 512 := by rw [w.sectorSize_eq]; rfl
  have hoffset := h.offset_eq
  have hbefore := h.before
  have hcovers := h.covers
  have hbehind := h.behind
  rw [Served]
  omega

end Reads

/-- A read of an open device within its window asks for whole sectors around its bytes. It
returns true exactly if the length of the request fits and the device has the bytes, which
are then what it stores; else the buffer is as it was. -/
theorem read_aligned (disk : Disk) (hanswers : Answers disk) (w : BlockDevice) (hopen : w.isOpen = true)
    (offset size : UInt64) (hpos : 0 < size.toNat)
    (hwin : 0 < w.partitionSize → offset.toNat + size.toNat ≤ w.partitionSize.toNat)
    (hfits : w.partitionOffset.toNat + offset.toNat + size.toNat + 511 < 2 ^ 63) (buffer : List Byte) :
    ∃ r, request w offset size = some r ∧
      Encloses w r (w.partitionOffset.toNat + offset.toNat) size.toNat ∧
      (Served disk r (w.partitionOffset.toNat + offset.toNat) size.toNat →
        readInto disk.readFile w offset (some buffer) size = pure (true, overlay
          ((List.range' (w.partitionOffset.toNat + offset.toNat) size.toNat).map disk.byte) buffer)) ∧
      (¬Served disk r (w.partitionOffset.toNat + offset.toNat) size.toNat →
        readInto disk.readFile w offset (some buffer) size = pure (false, buffer)) := by
  obtain ⟨r, hr, henclosed⟩ := request_encloses hopen hpos hwin (by omega)
  have hread := read_delivers hanswers hr henclosed hfits
  have hshort := short_iff disk henclosed hpos
  refine ⟨r, hr, henclosed, fun hserved => ?_, fun hserved => ?_⟩
  · rw [if_neg fun hlt => hshort.mp hlt hserved] at hread
    have hpure : read disk.readFile w offset size = pure (some
        ((List.range' (w.partitionOffset.toNat + offset.toNat) size.toNat).map disk.byte)) := hread
    rw [readInto, hpure]
    rfl
  · rw [if_pos (hshort.mpr hserved)] at hread
    have hpure : read disk.readFile w offset size = pure none := hread
    rw [readInto, hpure]
    rfl

def smallDisk : Disk := .ofPieces 1024 [(513, [0x61, 0x62])]

theorem read_aligned_small : ∃ r, request wholeDevice 513 2 = some r ∧
    Encloses wholeDevice r (0 + 513) 2 ∧
    (Served smallDisk r (0 + 513) 2 →
      readInto smallDisk.readFile wholeDevice 513 (some [0, 0, 0]) 2 =
        pure (true, overlay ((List.range' (0 + 513) 2).map smallDisk.byte) [0, 0, 0])) ∧
    (¬Served smallDisk r (0 + 513) 2 →
      readInto smallDisk.readFile wholeDevice 513 (some [0, 0, 0]) 2 = pure (false, [0, 0, 0])) :=
  read_aligned smallDisk (fun _ _ _ => rfl) wholeDevice rfl 513 2 (by decide)
    (fun h => absurd h (by decide)) (by decide) [0, 0, 0]

def IsSectorSize (s : UInt32) : Prop := 512 ≤ s.toNat ∧ ∃ k, s.toNat = 2 ^ k

def issued (w : BlockDevice) (offset size : UInt64) : Option (UInt64 × UInt32) :=
  (request w offset size).map fun r => (r.alignedStart, r.alignedSize.toUInt32)

theorem read_issues {m : Type → Type} [Monad m] {β : Type}
    (readFile : UInt64 → UInt32 → m (Option (List β))) {w : BlockDevice} {offset size : UInt64}
    (h : issued w offset size = none) : Devices.read readFile w offset size = pure none := by
  rw [issued, Option.map_eq_none_iff] at h
  rw [Devices.read, h]

/-- Windows takes the request of an unbuffered handle on a drive with sectors of size `s`. -/
def Honours (s : UInt32) (w : BlockDevice) (offset size : UInt64) : Prop :=
  w.noBuffering = true → ∀ position count, issued w offset size = some (position, count) →
    s.toNat ∣ position.toNat ∧ s.toNat ∣ count.toNat

def Passes (w : BlockDevice) (offset size : UInt64) : Prop :=
  w.isOpen = true ∧ size ≠ 0 ∧ (0 < w.partitionSize → offset + size ≤ w.partitionSize)

/-- The first byte is one of the first 512 of its sector, and the last byte is one of the
last 512 of its sector. -/
def AtSectorEnds (s : UInt32) (w : BlockDevice) (offset size : UInt64) : Prop :=
  (w.partitionOffset.toNat + offset.toNat) % s.toNat < 512 ∧
    (w.partitionOffset.toNat + offset.toNat + size.toNat + 511) % s.toNat < 512

section Sectors

variable {s : UInt32} {w : BlockDevice} {offset size : UInt64}

theorem IsSectorSize.dvd (h : IsSectorSize s) : 512 ∣ s.toNat ∧ s.toNat ∣ 2 ^ 32 := by
  obtain ⟨hle, k, hk⟩ := h
  have hlt := s.toNat_lt
  rw [hk] at hle hlt ⊢
  have h9 : 9 ≤ k := (Nat.pow_le_pow_iff_right (by decide)).mp (show 2 ^ 9 ≤ 2 ^ k from hle)
  have h32 : k < 32 := (Nat.pow_lt_pow_iff_right (by decide)).mp hlt
  exact ⟨Nat.pow_dvd_pow 2 h9, Nat.pow_dvd_pow 2 h32.le⟩

theorem dvd_round_iff (h : 512 ∣ s.toNat) (x : Nat) : s.toNat ∣ x / 512 * 512 ↔ x % s.toNat < 512 := by
  obtain ⟨k, hk⟩ := h
  rw [hk, Nat.mod_mul, Nat.mul_comm 512 k, Nat.mul_dvd_mul_iff_right (by decide),
    Nat.dvd_iff_mod_eq_zero]
  have := Nat.mod_lt x (show 0 < 512 by decide)
  omega

def lastByte (w : BlockDevice) (offset size : UInt64) : UInt64 :=
  w.partitionOffset + offset + size + w.sectorSize.toUInt64 - 1

theorem issued_of_passes (h : Passes w offset size) :
    ∃ r, request w offset size = some r ∧
      r.alignedStart.toNat = (w.partitionOffset + offset).toNat / 512 * 512 ∧
      r.alignedSize.toNat =
        (2 ^ 64 - r.alignedStart.toNat + (lastByte w offset size).toNat / 512 * 512) % 2 ^ 64 := by
  obtain ⟨hopen, hsize, hwin⟩ := h
  have h512 := sector_toNat w
  have hpos : 0 < size.toNat := Nat.pos_of_ne_zero fun h0 => hsize (UInt64.toNat_inj.mp h0)
  have hfrom := mul_div_toNat (w.partitionOffset + offset) w.sectorSize.toUInt64
  have hto := mul_div_toNat (lastByte w offset size) w.sectorSize.toUInt64
  rw [h512] at hfrom hto
  refine ⟨_, request_eq_some_iff.mpr ⟨⟨hopen, hpos⟩, hwin, rfl⟩, hfrom, ?_⟩
  dsimp only
  rw [UInt64.toNat_sub, ← hto]
  rfl

theorem issued_none (h : ¬Passes w offset size) : issued w offset size = none := by
  rw [issued, Option.map_eq_none_iff, Option.eq_none_iff_forall_ne_some]
  intro r hr
  obtain ⟨⟨hopen, hpos⟩, hwin, _⟩ := request_eq_some_iff.mp hr
  refine h ⟨hopen, ?_, hwin⟩
  rintro rfl
  exact absurd hpos (Nat.lt_irrefl 0)

theorem lastByte_mod (h : s.toNat ∣ 2 ^ 64) : (lastByte w offset size).toNat % s.toNat =
    (w.partitionOffset.toNat + offset.toNat + size.toNat + 511) % s.toNat := by
  have h512 := sector_toNat w
  have hlast : (lastByte w offset size).toNat =
      (w.partitionOffset.toNat + offset.toNat + size.toNat + 511) % 2 ^ 64 := by
    rw [lastByte, UInt64.toNat_sub, UInt64.toNat_add, UInt64.toNat_add, UInt64.toNat_add, h512]
    change (2 ^ 64 - 1 + _) % _ = _
    omega
  rw [hlast, Nat.mod_mod_of_dvd _ h]

theorem aligned_iff (h : IsSectorSize s) (hpasses : Passes w offset size) :
    (∀ position count, issued w offset size = some (position, count) →
      s.toNat ∣ position.toNat ∧ s.toNat ∣ count.toNat) ↔ AtSectorEnds s w offset size := by
  obtain ⟨h512, h32⟩ := h.dvd
  have h64 : s.toNat ∣ 2 ^ 64 := h32.trans (by decide)
  obtain ⟨r, hr, hstart, hsize⟩ := issued_of_passes hpasses
  have hfirst : s.toNat ∣ r.alignedStart.toNat ↔
      (w.partitionOffset.toNat + offset.toNat) % s.toNat < 512 := by
    rw [hstart, dvd_round_iff h512, UInt64.toNat_add, Nat.mod_mod_of_dvd _ h64]
  have hlength : s.toNat ∣ r.alignedStart.toNat → (s.toNat ∣ r.alignedSize.toUInt32.toNat ↔
      (w.partitionOffset.toNat + offset.toNat + size.toNat + 511) % s.toNat < 512) := by
    intro hs
    rw [UInt64.toNat_toUInt32, Nat.dvd_mod_iff h32, hsize, Nat.dvd_mod_iff h64,
      Nat.dvd_add_right (Nat.dvd_sub h64 hs), dvd_round_iff h512, lastByte_mod h64]
  rw [issued, hr, AtSectorEnds, ← hfirst]
  constructor
  · intro hall
    obtain ⟨hs, hn⟩ := hall _ _ rfl
    exact ⟨hs, (hlength hs).mp hn⟩
  · rintro ⟨hs, hn⟩ _ _ ⟨⟩
    exact ⟨hs, (hlength hs).mpr hn⟩

end Sectors

/-- On a drive with sectors of size `s`, a read through an unbuffered handle makes a request
that Windows takes exactly if its bytes lie at the ends of sectors: the boundaries are those
of 512 bytes whatever the drive says. All reads do only where 512 is right. -/
theorem honours_iff (s : UInt32) (hs : IsSectorSize s) :
    (∀ w offset size, Honours s w offset size ↔
      (w.noBuffering = true → Passes w offset size → AtSectorEnds s w offset size)) ∧
    ((∀ w offset size, Honours s w offset size) ↔ s = 512) := by
  have hiff : ∀ w offset size, Honours s w offset size ↔
      (w.noBuffering = true → Passes w offset size → AtSectorEnds s w offset size) := by
    intro w offset size
    refine forall_congr' fun _ => ?_
    by_cases hpasses : Passes w offset size
    · exact (aligned_iff hs hpasses).trans ⟨fun h _ => h, fun h => h hpasses⟩
    · rw [issued_none hpasses]
      exact iff_of_true nofun fun h => absurd h hpasses
  refine ⟨hiff, fun hall => ?_, ?_⟩
  · -- the first byte of a drive lies at the end of no larger sector
    have hfirst := (hiff (opened true 0 0) 0 1).mp (hall _ _ _) rfl ⟨rfl, by decide, by decide⟩
    have hlast : 512 % s.toNat < 512 := hfirst.2
    have hle : s.toNat ≤ 512 := by
      by_contra hlt
      rw [Nat.mod_eq_of_lt (by omega)] at hlast
      exact absurd hlast (Nat.lt_irrefl _)
    exact UInt32.toNat_inj.mp (Nat.le_antisymm hle hs.1)
  · rintro rfl w offset size
    refine (hiff w offset size).mpr fun _ _ => ⟨?_, ?_⟩ <;> exact Nat.mod_lt _ (by decide)

theorem honours_iff_advanced :
    (∀ w offset size, Honours 4096 w offset size ↔
      (w.noBuffering = true → Passes w offset size → AtSectorEnds 4096 w offset size)) ∧
    ((∀ w offset size, Honours 4096 w offset size) ↔ (4096 : UInt32) = 512) :=
  honours_iff 4096 ⟨by decide, 12, rfl⟩

/-- A drive with sectors of 4096 bytes and a superblock of ext4, which refuses what Windows
refuses. -/
def advancedDisk : Disk :=
  { Disk.ofPieces 1048576 [(1024, le32Bytes 16 ++ le32Bytes 16), (1056, le32Bytes 8192),
      (1064, le32Bytes 16), (1080, le16Bytes 0xEF53)] with
    fails := fun position count => position % 4096 != 0 || count % 4096 != 0 }

/-- The superblock cannot be read, and the filesystem is not mounted. With sectors of 512
bytes it is. -/
theorem advanced_drive_not_mounted :
    issued (opened true 0 0) superblockOffset 1024 = some (1024, 1024) ∧
      ¬Honours 4096 (opened true 0 0) superblockOffset 1024 ∧
      (result (Reader.mount (advancedDisk.device (opened true 0 0)) true Reader.initial)).map Prod.fst =
        some false ∧
      (result (Reader.mount ({ advancedDisk with fails := fun _ _ => false }.device (opened true 0 0)) true
        Reader.initial)).map Prod.fst = some true := by
  have hissued : issued (opened true 0 0) superblockOffset 1024 = some (1024, 1024) := by
    decide +kernel
  refine ⟨hissued, fun h => ?_, by decide +kernel, by decide +kernel⟩
  exact absurd (h rfl _ _ hissued).1 (by decide)

end Linux2Win.AlignedReads
