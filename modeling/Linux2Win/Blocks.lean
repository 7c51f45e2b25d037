import Mathlib.Algebra.Order.Ring.Nat
import Mathlib.Data.List.Basic

namespace Linux2Win.Blocks

variable {β : Type} (block : Nat → Option (List β)) (size : Nat)

def byteOf (pos : Nat) : Option β := (block (pos / size)).bind fun b => b[pos % size]?

def Segment (start : Nat) (bytes : List β) : Prop :=
  ∀ i (h : i < bytes.length), byteOf block size (start + i) = some bytes[i]

variable {block size}

theorem Segment.nil (start : Nat) : Segment block size start [] := by
  intro i h
  cases h

theorem Segment.append {start : Nat} {left right : List β} (hl : Segment block size start left)
    (hr : Segment block size (start + left.length) right) :
    Segment block size start (left ++ right) := by
  intro i h
  rw [List.length_append] at h
  rcases Nat.lt_or_ge i left.length with hi | hi
  · rw [List.getElem_append_left hi]
    exact hl i hi
  · rw [List.getElem_append_right hi, ← hr (i - left.length) (by omega)]
    congr 1
    omega

theorem div_mod_within {start i : Nat} (h : start % size + i < size) :
    (start + i) / size = start / size ∧ (start + i) % size = start % size + i := by
  have hpos : 0 < size := by omega
  have hsum : start + i = size * (start / size) + (start % size + i) := by
    have := Nat.div_add_mod start size
    omega
  refine ⟨?_, ?_⟩
  · rw [hsum, Nat.mul_add_div hpos, Nat.div_eq_of_lt h, Nat.add_zero]
  · rw [hsum, Nat.mul_add_mod, Nat.mod_eq_of_lt h]

theorem length_chunk {b : List β} (hb : b.length = size) {start count : Nat}
    (hcount : start % size + count ≤ size) :
    ((b.drop (start % size)).take count).length = count := by
  simp only [List.length_take, List.length_drop, hb]
  omega

theorem segment_chunk {start count : Nat} {b : List β} (hblock : block (start / size) = some b)
    (hb : b.length = size) (hcount : start % size + count ≤ size) :
    Segment block size start ((b.drop (start % size)).take count) := by
  intro i h
  rw [length_chunk hb hcount] at h
  have hwithin : start % size + i < size := by omega
  obtain ⟨hdiv, hmod⟩ := div_mod_within hwithin
  rw [byteOf, hdiv, hmod, hblock, Option.bind_some, List.getElem_take, List.getElem_drop,
    List.getElem?_eq_getElem]

end Linux2Win.Blocks
