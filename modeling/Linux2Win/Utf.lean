import Mathlib.Algebra.Order.Ring.Nat
import Mathlib.Data.List.Basic

namespace Linux2Win.Utf

def utf8 (text : List Char) : List UInt8 := text.flatMap String.utf8EncodeChar

def utf16EncodeChar (c : Char) : List UInt16 :=
  if c.toNat < 0x10000 then [UInt16.ofNat c.toNat]
  else [UInt16.ofNat (0xD800 + (c.toNat - 0x10000) / 0x400),
    UInt16.ofNat (0xDC00 + (c.toNat - 0x10000) % 0x400)]

def utf16 (text : List Char) : List UInt16 := text.flatMap utf16EncodeChar

def isHighSurrogate (u : UInt16) : Prop := 0xD800 ≤ u.toNat ∧ u.toNat < 0xDC00
def isLowSurrogate (u : UInt16) : Prop := 0xDC00 ≤ u.toNat ∧ u.toNat < 0xE000

instance (u : UInt16) : Decidable (isHighSurrogate u) := inferInstanceAs (Decidable (_ ∧ _))
instance (u : UInt16) : Decidable (isLowSurrogate u) := inferInstanceAs (Decidable (_ ∧ _))

/-- The character of a unit outside a pair, or the replacement character for a
surrogate without its other half. -/
def unitChar (u : UInt16) : Char :=
  if isHighSurrogate u ∨ isLowSurrogate u then Char.ofNat 0xFFFD else Char.ofNat u.toNat

def pairChar (high low : UInt16) : Char :=
  Char.ofNat (0x10000 + (high.toNat - 0xD800) * 0x400 + (low.toNat - 0xDC00))

def decode : List UInt16 → List Char
  | [] => []
  | [u] => [unitChar u]
  | u :: v :: units =>
      if isHighSurrogate u ∧ isLowSurrogate v then pairChar u v :: decode units
      else unitChar u :: decode (v :: units)

def highByte (b : UInt8) : Bool := 0x80 ≤ b
def highUnit (u : UInt16) : Bool := 0x80 ≤ u

section Chars

variable {c : Char}

theorem toNat_ofNat {n : Nat} (h : n.isValidChar) : (Char.ofNat n).toNat = n := by
  rw [Char.ofNat, dif_pos h]
  rfl

theorem utf8_ascii (h : c.toNat < 0x80) : String.utf8EncodeChar c = [UInt8.ofNat c.toNat] := by
  rw [String.utf8EncodeChar]
  exact if_pos (Nat.le_of_lt_succ h)

theorem utf16_ascii (h : c.toNat < 0x80) : utf16EncodeChar c = [UInt16.ofNat c.toNat] :=
  if_pos (h.trans (by decide))

theorem high_byte {n m k : Nat} (hm : 0 < m) (hk : 0x80 ≤ k) (hle : m + k ≤ 0x100) :
    0x80 ≤ UInt8.ofNat (n % m + k) := by
  have hlt := Nat.mod_lt n hm
  rw [UInt8.le_iff_toNat_le, UInt8.toNat_ofNat_of_lt' (by simp only [UInt8.size]; omega)]
  exact hk.trans (Nat.le_add_left _ _)

theorem utf8_high (h : 0x80 ≤ c.toNat) : ∀ b ∈ String.utf8EncodeChar c, 0x80 ≤ b := by
  have hno : ¬c.val.toNat ≤ 0x7F := Nat.not_le_of_lt h
  rw [String.utf8EncodeChar, if_neg hno]
  split
  · simp only [List.forall_mem_cons]
    exact ⟨high_byte (by decide) (by decide) (by decide), high_byte (by decide) (by decide) (by decide),
      fun _ hb => absurd hb List.not_mem_nil⟩
  · split
    · simp only [List.forall_mem_cons]
      exact ⟨high_byte (by decide) (by decide) (by decide), high_byte (by decide) (by decide) (by decide),
        high_byte (by decide) (by decide) (by decide), fun _ hb => absurd hb List.not_mem_nil⟩
    · simp only [List.forall_mem_cons]
      exact ⟨high_byte (by decide) (by decide) (by decide), high_byte (by decide) (by decide) (by decide),
        high_byte (by decide) (by decide) (by decide), high_byte (by decide) (by decide) (by decide),
        fun _ hb => absurd hb List.not_mem_nil⟩

theorem length_utf8_high (h : 0x80 ≤ c.toNat) :
    2 * (utf16EncodeChar c).length ≤ (String.utf8EncodeChar c).length := by
  have hno : ¬c.val.toNat ≤ 0x7F := Nat.not_le_of_lt h
  rw [String.utf8EncodeChar, if_neg hno, utf16EncodeChar]
  by_cases hone : c.toNat < 0x10000
  · rw [if_pos hone, if_pos (show c.val.toNat ≤ 0xFFFF from Nat.le_of_lt_succ hone)]
    split <;> simp
  · have hbmp : ¬c.val.toNat ≤ 0xFFFF := fun hle => hone (Nat.lt_succ_of_le hle)
    rw [if_neg hone, if_neg hbmp, if_neg fun hle => hbmp (hle.trans (by decide))]
    simp

theorem length_utf16_pos : 0 < (utf16EncodeChar c).length := by
  rw [utf16EncodeChar]
  split <;> exact Nat.succ_pos _

end Chars

section Texts

variable {text : List Char} {c : Char}

theorem utf8_all_ascii (h : ∀ c ∈ text, c.toNat < 0x80) :
    utf8 text = text.map fun c => UInt8.ofNat c.toNat := by
  induction text with
  | nil => rfl
  | cons c text ih =>
      rw [List.forall_mem_cons] at h
      rw [utf8, List.flatMap_cons, utf8_ascii h.1]
      exact congrArg _ (ih h.2)

theorem utf16_all_ascii (h : ∀ c ∈ text, c.toNat < 0x80) :
    utf16 text = text.map fun c => UInt16.ofNat c.toNat := by
  induction text with
  | nil => rfl
  | cons c text ih =>
      rw [List.forall_mem_cons] at h
      rw [utf16, List.flatMap_cons, utf16_ascii h.1]
      exact congrArg _ (ih h.2)

theorem ascii_of_utf8 (h : ∀ b ∈ utf8 text, b < 0x80) : ∀ c ∈ text, c.toNat < 0x80 := by
  intro c hc
  by_contra hhigh
  obtain ⟨b, hb⟩ := List.exists_mem_of_ne_nil _ (String.utf8EncodeChar_ne_nil (c := c))
  have hlow := h b (List.mem_flatMap.mpr ⟨c, hc, hb⟩)
  exact absurd (utf8_high (Nat.le_of_not_lt hhigh) b hb) (UInt8.not_le.mpr hlow)

theorem length_char : (utf16EncodeChar c).length ≤ (String.utf8EncodeChar c).length := by
  by_cases h : c.toNat < 0x80
  · rw [utf8_ascii h, utf16_ascii h]
    exact le_rfl
  · have := length_utf8_high (Nat.le_of_not_lt h)
    omega

theorem length_utf16_le (text : List Char) : (utf16 text).length ≤ (utf8 text).length := by
  induction text with
  | nil => exact le_rfl
  | cons c text ih =>
      rw [utf16, utf8, List.flatMap_cons, List.flatMap_cons, List.length_append, List.length_append]
      exact Nat.add_le_add length_char ih

theorem ascii_of_length (h : (utf8 text).length ≤ (utf16 text).length) :
    ∀ c ∈ text, c.toNat < 0x80 := by
  induction text with
  | nil => exact fun _ hc => absurd hc List.not_mem_nil
  | cons c text ih =>
      rw [utf16, utf8, List.flatMap_cons, List.flatMap_cons, List.length_append, List.length_append] at h
      have hrest : (utf16 text).length ≤ (utf8 text).length := length_utf16_le text
      have hchar := length_char (c := c)
      rw [utf16, utf8] at hrest
      rw [List.forall_mem_cons]
      refine ⟨?_, ih (by rw [utf16, utf8]; omega)⟩
      by_contra hhigh
      have htwo := length_utf8_high (Nat.le_of_not_lt hhigh)
      have hpos := length_utf16_pos (c := c)
      omega

end Texts

section Decode

variable {u v : UInt16} {w : List UInt16} {c : Char}

theorem decode_cons (h : ¬isHighSurrogate u) (w : List UInt16) :
    decode (u :: w) = unitChar u :: decode w := by
  cases w with
  | nil => rfl
  | cons v w => exact if_neg fun hpair => h hpair.1

theorem unitChar_toNat (h : ¬(isHighSurrogate u ∨ isLowSurrogate u)) : (unitChar u).toNat = u.toNat := by
  rw [unitChar, if_neg h]
  apply toNat_ofNat
  have hlt := u.toNat_lt
  simp only [isHighSurrogate, isLowSurrogate] at h
  rw [Nat.isValidChar]
  omega

theorem pairChar_toNat (hu : isHighSurrogate u) (hv : isLowSurrogate v) :
    (pairChar u v).toNat = 0x10000 + (u.toNat - 0xD800) * 0x400 + (v.toNat - 0xDC00) := by
  apply toNat_ofNat
  simp only [isHighSurrogate, isLowSurrogate] at hu hv
  rw [Nat.isValidChar]
  omega

theorem decode_utf16 (text : List Char) : decode (utf16 text) = text := by
  induction text with
  | nil => rfl
  | cons c text ih =>
      have hvalid : c.toNat.isValidChar := c.valid
      rw [Nat.isValidChar] at hvalid
      rw [utf16, List.flatMap_cons, utf16EncodeChar]
      split
      · rename_i hone
        have hnat : (UInt16.ofNat c.toNat).toNat = c.toNat := UInt16.toNat_ofNat_of_lt' hone
        have hno : ¬(isHighSurrogate (UInt16.ofNat c.toNat) ∨ isLowSurrogate (UInt16.ofNat c.toNat)) := by
          simp only [isHighSurrogate, isLowSurrogate, hnat]
          omega
        change decode (_ :: utf16 text) = _
        rw [decode_cons fun h => hno (Or.inl h), ih, unitChar, if_neg hno, hnat, Char.ofNat_toNat]
      · rename_i htwo
        have hhigh : (UInt16.ofNat (0xD800 + (c.toNat - 0x10000) / 0x400)).toNat =
            0xD800 + (c.toNat - 0x10000) / 0x400 :=
          UInt16.toNat_ofNat_of_lt' (by simp only [UInt16.size]; omega)
        have hlow : (UInt16.ofNat (0xDC00 + (c.toNat - 0x10000) % 0x400)).toNat =
            0xDC00 + (c.toNat - 0x10000) % 0x400 :=
          UInt16.toNat_ofNat_of_lt' (by simp only [UInt16.size]; omega)
        change (if _ then _ :: decode (utf16 text) else _) = _
        rw [if_pos (by simp only [isHighSurrogate, isLowSurrogate, hhigh, hlow]; omega), ih, pairChar,
          hhigh, hlow]
        have hback : 0x10000 + (0xD800 + (c.toNat - 0x10000) / 0x400 - 0xD800) * 0x400 +
            (0xDC00 + (c.toNat - 0x10000) % 0x400 - 0xDC00) = c.toNat := by
          omega
        rw [hback, Char.ofNat_toNat]

theorem utf8_decode_ascii (h : ∀ u ∈ w, u.toNat < 0x80) : utf8 (decode w) = w.map UInt16.toUInt8 := by
  induction w with
  | nil => rfl
  | cons u w ih =>
      rw [List.forall_mem_cons] at h
      have hno : ¬(isHighSurrogate u ∨ isLowSurrogate u) := by
        simp only [isHighSurrogate, isLowSurrogate]
        omega
      have hchar := unitChar_toNat hno
      have hlow : (unitChar u).toNat < 0x80 := hchar.trans_lt h.1
      rw [decode_cons fun hu => hno (Or.inl hu), utf8, List.flatMap_cons, utf8_ascii hlow, hchar,
        List.map_cons]
      exact congrArg _ (ih h.2)

theorem countP_high (h : 0x80 ≤ c.toNat) :
    2 * (utf16EncodeChar c).length ≤ (String.utf8EncodeChar c).countP highByte := by
  have hall : (String.utf8EncodeChar c).countP highByte = (String.utf8EncodeChar c).length :=
    List.countP_eq_length.mpr fun b hb => decide_eq_true (utf8_high h b hb)
  rw [hall]
  exact length_utf8_high h

theorem countP_unitChar (u : UInt16) :
    2 * [u].countP highUnit ≤ (String.utf8EncodeChar (unitChar u)).countP highByte := by
  rw [List.countP_singleton]
  split
  · rename_i hu
    have hunit : 0x80 ≤ u.toNat := UInt16.le_iff_toNat_le.mp (of_decide_eq_true hu)
    have hchar : 0x80 ≤ (unitChar u).toNat := by
      by_cases hsurrogate : isHighSurrogate u ∨ isLowSurrogate u
      · rw [unitChar, if_pos hsurrogate]
        decide
      · rw [unitChar_toNat hsurrogate]
        exact hunit
    have := countP_high hchar
    have := length_utf16_pos (c := unitChar u)
    omega
  · exact Nat.zero_le _

/-- The high units of a wide text come out as twice as many high bytes at least. -/
theorem countP_utf8_decode (w : List UInt16) :
    2 * w.countP highUnit ≤ (utf8 (decode w)).countP highByte := by
  induction w using decode.induct with
  | case1 => exact Nat.zero_le _
  | case2 u =>
      rw [decode, utf8, List.flatMap_singleton]
      exact countP_unitChar u
  | case3 u v units hpair ih =>
      have hchar := pairChar_toNat hpair.1 hpair.2
      have hhigh := countP_high (c := pairChar u v) (by omega)
      rw [utf16EncodeChar, if_neg (by omega)] at hhigh
      have htwo : [u, v].countP highUnit ≤ 2 := List.countP_le_length
      rw [decode, if_pos hpair, utf8, List.flatMap_cons, List.countP_append, ← utf8]
      change 2 * ([u, v] ++ units).countP highUnit ≤ _
      rw [List.countP_append]
      simp only [List.length_cons, List.length_nil] at hhigh
      omega
  | case4 u v units hpair ih =>
      have hchar := countP_unitChar u
      rw [decode, if_neg hpair, utf8, List.flatMap_cons, List.countP_append, ← utf8]
      change 2 * ([u] ++ (v :: units)).countP highUnit ≤ _
      rw [List.countP_append]
      omega

end Decode

end Linux2Win.Utf
