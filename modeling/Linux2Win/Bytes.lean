import Mathlib.Algebra.Order.Ring.Nat
import Mathlib.Data.List.Basic

namespace Linux2Win.Bytes

abbrev Byte := UInt8

theorem forall_byte {P : Byte → Prop} (h : ∀ n < 256, P (UInt8.ofNat n)) (c : Byte) : P c := by
  have hc := h c.toNat c.toNat_lt
  rwa [UInt8.ofNat_toNat] at hc

/-- The byte at an index; what lies past the end reads as zero, so a caller
that must stay inside the buffer compares with the length first. -/
def byteAt (b : List Byte) (i : Nat) : Byte := b.getD i 0

def le16 (b : List Byte) (i : Nat) : UInt16 :=
  UInt16.ofNat ((byteAt b i).toNat + 256 * (byteAt b (i + 1)).toNat)

def le32 (b : List Byte) (i : Nat) : UInt32 :=
  UInt32.ofNat ((byteAt b i).toNat + 256 * (byteAt b (i + 1)).toNat +
    65536 * (byteAt b (i + 2)).toNat + 16777216 * (byteAt b (i + 3)).toNat)

/-- The minimum of machine integers, taken on the numbers that they stand for. -/
theorem min_toNat {α : Type} [LE α] [DecidableLE α] (toNat : α → Nat)
    (hle : ∀ {a b}, a ≤ b ↔ toNat a ≤ toNat b) (a b : α) :
    toNat (minOfLe.min a b) = min (toNat a) (toNat b) := by
  change toNat (if a ≤ b then a else b) = _
  split
  · rename_i h
    exact (Nat.min_eq_left (hle.mp h)).symm
  · rename_i h
    rw [hle] at h
    exact (Nat.min_eq_right (Nat.le_of_not_le h)).symm

/-- Each `char` becomes a `wchar_t` of its own, with its sign. -/
def widen (s : List Byte) : List UInt16 := s.map fun c => c.toInt8.toInt16.toUInt16

theorem le16_toNat (b : List Byte) (i : Nat) :
    (le16 b i).toNat = (byteAt b i).toNat + 256 * (byteAt b (i + 1)).toNat := by
  have h0 := (byteAt b i).toNat_lt
  have h1 := (byteAt b (i + 1)).toNat_lt
  rw [le16, UInt16.toNat_ofNat_of_lt']
  simp only [UInt16.size]
  omega

theorem le32_toNat (b : List Byte) (i : Nat) :
    (le32 b i).toNat = (byteAt b i).toNat + 256 * (byteAt b (i + 1)).toNat +
      65536 * (byteAt b (i + 2)).toNat + 16777216 * (byteAt b (i + 3)).toNat := by
  have h0 := (byteAt b i).toNat_lt
  have h1 := (byteAt b (i + 1)).toNat_lt
  have h2 := (byteAt b (i + 2)).toNat_lt
  have h3 := (byteAt b (i + 3)).toNat_lt
  rw [le32, UInt32.toNat_ofNat_of_lt']
  simp only [UInt32.size]
  omega

theorem byteAt_append_right (a b : List Byte) (i : Nat) : byteAt (a ++ b) (a.length + i) = byteAt b i := by
  rw [byteAt, byteAt, List.getD_eq_getElem?_getD, List.getElem?_append_right (Nat.le_add_right _ _),
    Nat.add_sub_cancel_left, List.getD_eq_getElem?_getD]

theorem le16_append_right (a b : List Byte) (i : Nat) : le16 (a ++ b) (a.length + i) = le16 b i := by
  simp only [le16, Nat.add_assoc, byteAt_append_right]

theorem le32_append_right (a b : List Byte) (i : Nat) : le32 (a ++ b) (a.length + i) = le32 b i := by
  simp only [le32, Nat.add_assoc, byteAt_append_right]

def le16Bytes (x : UInt16) : List Byte := [x.toUInt8, (x >>> 8).toUInt8]

def le32Bytes (x : UInt32) : List Byte :=
  [x.toUInt8, (x >>> 8).toUInt8, (x >>> 16).toUInt8, (x >>> 24).toUInt8]

theorem le16_le16Bytes (x : UInt16) (b : List Byte) : le16 (le16Bytes x ++ b) 0 = x := by
  apply UInt16.toNat_inj.mp
  have h := x.toNat_lt
  rw [le16_toNat]
  change x.toUInt8.toNat + 256 * (x >>> 8).toUInt8.toNat = x.toNat
  simp only [UInt16.toNat_toUInt8, UInt16.toNat_shiftRight, Nat.shiftRight_eq_div_pow]
  change x.toNat % 2 ^ 8 + 256 * (x.toNat / 2 ^ 8 % 2 ^ 8) = x.toNat
  omega

theorem le32_le32Bytes (x : UInt32) (b : List Byte) : le32 (le32Bytes x ++ b) 0 = x := by
  apply UInt32.toNat_inj.mp
  have h := x.toNat_lt
  rw [le32_toNat]
  change x.toUInt8.toNat + 256 * (x >>> 8).toUInt8.toNat + 65536 * (x >>> 16).toUInt8.toNat +
    16777216 * (x >>> 24).toUInt8.toNat = x.toNat
  simp only [UInt32.toNat_toUInt8, UInt32.toNat_shiftRight, Nat.shiftRight_eq_div_pow]
  change x.toNat % 2 ^ 8 + 256 * (x.toNat / 2 ^ 8 % 2 ^ 8) + 65536 * (x.toNat / 2 ^ 16 % 2 ^ 8) +
    16777216 * (x.toNat / 2 ^ 24 % 2 ^ 8) = x.toNat
  omega

/-- Bytes that are zero outside some pieces, each with the position it starts at. -/
def patched (pieces : List (Nat × List Byte)) (i : Nat) : Byte :=
  match pieces.find? fun p => p.1 ≤ i && i < p.1 + p.2.length with
  | some p => byteAt p.2 (i - p.1)
  | none => 0

/-- Copy into a zeroed record of fixed size: the first `n` bytes of the
buffer, followed by zeros where the buffer is shorter. -/
def zeroPad (n : Nat) (b : List Byte) : List Byte :=
  b.take n ++ List.replicate (n - b.length) 0

theorem zeroPad_length (n : Nat) (b : List Byte) : (zeroPad n b).length = n := by
  simp only [zeroPad, List.length_append, List.length_take, List.length_replicate]
  omega

theorem zeroPad_of_length {n : Nat} {b : List Byte} (h : b.length = n) : zeroPad n b = b := by
  rw [zeroPad, ← h, List.take_length, Nat.sub_self, List.replicate_zero, List.append_nil]

structure Packed (n : Nat) where
  bytes : List Byte
  length_eq : bytes.length = n
  deriving DecidableEq

namespace Packed

def ofBytes (n : Nat) (b : List Byte) : Packed n := ⟨zeroPad n b, zeroPad_length n b⟩

theorem ofBytes_bytes {n : Nat} (p : Packed n) : ofBytes n p.bytes = p := by
  cases p with
  | mk bytes length_eq => simp only [ofBytes, zeroPad_of_length length_eq]

def zero (n : Nat) : Packed n := ⟨List.replicate n 0, List.length_replicate⟩

def ofPieces (n : Nat) (pieces : List (Nat × List Byte)) : Packed n :=
  ⟨(List.range n).map (patched pieces), by simp⟩

def u16 {n : Nat} (p : Packed n) (offset : Nat) : UInt16 := le16 p.bytes offset

def u32 {n : Nat} (p : Packed n) (offset : Nat) : UInt32 := le32 p.bytes offset

def field {n : Nat} (p : Packed n) (offset size : Nat) : List Byte := (p.bytes.drop offset).take size

theorem field_length {n : Nat} (p : Packed n) (offset size : Nat) (h : offset + size ≤ n) :
    (p.field offset size).length = size := by
  simp only [field, List.length_take, List.length_drop, p.length_eq]
  omega

end Packed

end Linux2Win.Bytes
