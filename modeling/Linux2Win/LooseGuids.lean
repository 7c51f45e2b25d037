import Linux2Win.GuidFields

namespace Linux2Win.LooseGuids

open Bytes Guids GuidFields

def stripped (str : List Byte) : List Byte :=
  str.filter fun c => c != 0x2D && c != 0x7B && c != 0x7D

def IsGuidText (str : List Byte) : Prop := (stripped str).length = 32 ∧ AllHex (stripped str)

def denoted (str : List Byte) : Guid := ofFields (fun f => UInt32.ofNat (digitsOf f)) (stripped str)

def Strict (str : List Byte) : Prop :=
  (IsGuidText str → Guid.fromString str = denoted str) ∧
  (¬ IsGuidText str → Guid.fromString str = .zero)

section Digits

theorem clean_eq (str : List Byte) : Guid.clean str = (stripped str).map toLower := rfl

theorem clean_length (str : List Byte) : (Guid.clean str).length = (stripped str).length := by
  rw [clean_eq, List.length_map]

theorem hexValue_toLower : ∀ c, hexValue (toLower c) = hexValue c :=
  forall_byte (by decide +kernel)

theorem toLower_marks : ∀ c, isSpace (toLower c) = isSpace c ∧ (toLower c == 0x2B) = (c == 0x2B) ∧
    (toLower c == 0x2D) = (c == 0x2D) ∧ (toLower c == 0x30) = (c == 0x30) ∧
      (toLower c == 0x78 || toLower c == 0x58) = (c == 0x78 || c == 0x58) :=
  forall_byte (by decide +kernel)

theorem unsigned_map (f : List Byte) : unsigned (f.map toLower) = (unsigned f).map toLower := by
  have hdrop : (f.map toLower).dropWhile isSpace = (f.dropWhile isSpace).map toLower := by
    rw [List.dropWhile_map]
    congr 2
    funext c
    exact (toLower_marks c).1
  rw [unsigned, unsigned, hdrop]
  cases f.dropWhile isSpace with
  | nil => rfl
  | cons c cs =>
      obtain ⟨-, hplus, hminus, -⟩ := toLower_marks c
      simp only [List.map_cons, List.head?_cons, List.tail_cons, Option.some_beq_some, hplus, hminus]
      exact (apply_ite (List.map toLower) _ cs (c :: cs)).symm

theorem dropHexPrefix_map (s : List Byte) :
    dropHexPrefix (s.map toLower) = (dropHexPrefix s).map toLower := by
  match s with
  | [] => rfl
  | [_] => rfl
  | [_, _] => rfl
  | z :: x :: c :: cs =>
      obtain ⟨-, -, -, hz, -⟩ := toLower_marks z
      obtain ⟨-, -, -, -, hx⟩ := toLower_marks x
      simp only [List.map_cons, dropHexPrefix, hz, hx, hexValue_toLower]
      split <;> rfl

theorem hexPrefix_map (s : List Byte) : hexPrefix (s.map toLower) = hexPrefix s := by
  induction s with
  | nil => rfl
  | cons c cs ih => rw [List.map_cons, hexPrefix, hexPrefix, hexValue_toLower, ih]

theorem run_map (f : List Byte) : run (f.map toLower) = run f := by
  rw [run, run, unsigned_map, dropHexPrefix_map, hexPrefix_map]

theorem allHex_map {f : List Byte} (h : AllHex f) : AllHex (f.map toLower) := by
  intro c hc
  obtain ⟨d, hd, rfl⟩ := List.mem_map.mp hc
  rw [hexValue_toLower]
  exact h d hd

theorem digitsOf_map (f : List Byte) : digitsOf (f.map toLower) = digitsOf f := by
  rw [digitsOf, List.filterMap_map, digitsOf]
  congr 2
  funext c
  exact hexValue_toLower c

end Digits

section Fields

variable {s : List Byte}

theorem fields_part (hs : s.length = 32) : ∀ f ∈ fields s, f ≠ [] ∧ f.length ≤ 8 ∧ ∀ c ∈ f, c ∈ s := by
  have hslice (k n : Nat) (hk : k < 32) (hn : 0 < n ∧ n ≤ 8) :
      (s.drop k).take n ≠ [] ∧ ((s.drop k).take n).length ≤ 8 ∧ ∀ c ∈ (s.drop k).take n, c ∈ s := by
    have hlength : ((s.drop k).take n).length = min n (32 - k) := by
      rw [List.length_take, List.length_drop, hs]
    refine ⟨List.ne_nil_of_length_pos (by omega), by omega, ?_⟩
    exact fun c hc => List.mem_of_mem_drop (List.mem_of_mem_take hc)
  rw [forall_fields]
  refine ⟨hslice 0 8 (by decide) (by decide), hslice 8 4 (by decide) (by decide),
    hslice 12 4 (by decide) (by decide), ?_⟩
  exact fun i hi => hslice (16 + i * 2) 2 (by omega) (by decide)

theorem ofFields_congr {v w : List Byte → UInt32} (h : ∀ f ∈ fields s, v f = w f) :
    ofFields v s = ofFields w s := by
  obtain ⟨h1, h2, h3, h4⟩ := forall_fields.mp h
  have hdata4 : ((List.range 8).map fun i => (v ((s.drop (16 + i * 2)).take 2)).toUInt8) =
      (List.range 8).map fun i => (w ((s.drop (16 + i * 2)).take 2)).toUInt8 :=
    List.map_congr_left fun i hi => by rw [h4 i (List.mem_range.mp hi)]
  simp only [ofFields, h1, h2, h3, hdata4]

theorem fields_map (s : List Byte) : fields (s.map toLower) = (fields s).map (List.map toLower) := by
  simp only [fields, List.map_cons, List.map_map, List.map_take, List.map_drop, Function.comp_def]

theorem ofFields_map (v : List Byte → UInt32) :
    ofFields v (s.map toLower) = ofFields (fun f => v (f.map toLower)) s := by
  simp only [ofFields, ← List.map_take, ← List.map_drop]

theorem ofFields_eq_zero {v : List Byte → UInt32} : ofFields v s = .zero ↔
    v (s.take 8) = 0 ∧ (v ((s.drop 8).take 4)).toUInt16 = 0 ∧ (v ((s.drop 12).take 4)).toUInt16 = 0 ∧
      ∀ i < 8, (v ((s.drop (16 + i * 2)).take 2)).toUInt8 = 0 := by
  rw [ofFields, Guid.zero, Guid.mk.injEq, List.eq_replicate_iff, List.forall_mem_map]
  simp

/-- A multiple of the field's range that a number inside the range gives is zero. -/
theorem value_mod {f : List Byte} {n : Nat} (hn : n ≤ 8) (haccepted : Accepted (f.take n)) :
    ((stoul16 (f.take n)).getD 0).toNat % 16 ^ n = 0 ↔ magnitude (f.take n) = 0 := by
  have hlength : (f.take n).length ≤ n := List.length_take_le n f
  generalize f.take n = f at *
  have hlt : magnitude f < 16 ^ n := (magnitude_lt f).trans_le (Nat.pow_le_pow_right (by decide) hlength)
  have hN : 16 ^ n ∣ 2 ^ 32 := Nat.pow_dvd_pow 16 hn
  have hrange : magnitude f < 2 ^ 32 := hlt.trans_le (Nat.le_of_dvd (by decide) hN)
  rw [stoul16_eq (hlength.trans hn), if_neg (accepted_iff.mp haccepted), Option.getD_some]
  split
  · have hsub : (0 - UInt32.ofNat (magnitude f)).toNat = (2 ^ 32 - magnitude f) % 2 ^ 32 := by
      rw [UInt32.toNat_sub, UInt32.toNat_ofNat', Nat.mod_eq_of_lt hrange]
      rfl
    rw [hsub, Nat.mod_mod_of_dvd _ hN, ← Nat.dvd_iff_mod_eq_zero, Nat.dvd_sub_iff_right hrange.le hN]
    exact ⟨fun h => Nat.eq_zero_of_dvd_of_lt h hlt, fun h => h ▸ Nat.dvd_zero _⟩
  · rw [UInt32.toNat_ofNat', Nat.mod_mod_of_dvd _ hN, Nat.mod_eq_of_lt hlt]

end Fields

section Strictness

variable {str : List Byte}

theorem stoul16_none {f : List Byte} (hlength : f.length ≤ 8) : stoul16 f = none ↔ ¬Accepted f := by
  rw [stoul16_eq hlength, accepted_iff, not_not]
  split <;> simp_all

theorem fromString_guidText (h : IsGuidText str) : Guid.fromString str = denoted str := by
  obtain ⟨hlength, hhex⟩ := h
  have hclean : (Guid.clean str).length = 32 := (clean_length str).trans hlength
  have hvalue : ∀ f ∈ fields (Guid.clean str), stoul16 f = some (UInt32.ofNat (digitsOf f)) := by
    intro f hf
    obtain ⟨hne, height, hmem⟩ := fields_part hclean f hf
    exact stoul16_allHex (fun c hc => allHex_map hhex c (hmem c hc)) hne height
  rw [(fromString_fields hclean).1 fun f hf => by rw [hvalue f hf]; rfl,
    ofFields_congr (w := fun f => UInt32.ofNat (digitsOf f)) fun f hf => by rw [hvalue f hf]; rfl,
    clean_eq, ofFields_map, denoted]
  simp only [digitsOf_map]

theorem fromString_accepted (hclean : (Guid.clean str).length = 32)
    (haccepted : ∀ f ∈ fields (Guid.clean str), Accepted f) :
    Guid.fromString str = .zero ↔ ∀ f ∈ fields (Guid.clean str), magnitude f = 0 := by
  have hsome : ∀ f ∈ fields (Guid.clean str), (stoul16 f).isSome = true := by
    intro f hf
    rw [Option.isSome_iff_ne_none]
    intro hnone
    exact (stoul16_none (fields_part hclean f hf).2.1).mp hnone (haccepted f hf)
  obtain ⟨h1, h2, h3, h4⟩ := forall_fields.mp haccepted
  rw [(fromString_fields hclean).1 hsome, ofFields_eq_zero, forall_fields]
  refine and_congr ?_ (and_congr ?_ (and_congr ?_ (forall₂_congr fun i hi => ?_)))
  · rw [← value_mod (by decide) h1, ← UInt32.toNat_inj,
      Nat.mod_eq_of_lt (show _ < 16 ^ 8 from UInt32.toNat_lt _)]
    rfl
  · rw [← value_mod (by decide) h2, ← UInt16.toNat_inj, UInt32.toNat_toUInt16]
    rfl
  · rw [← value_mod (by decide) h3, ← UInt16.toNat_inj, UInt32.toNat_toUInt16]
    rfl
  · rw [← value_mod (by decide) (h4 i hi), ← UInt8.toNat_inj, UInt32.toNat_toUInt8]
    rfl

theorem forall_clean_fields (str : List Byte) {P : List Byte → Prop}
    (hP : ∀ f : List Byte, P (f.map toLower) ↔ P f) :
    (∀ f ∈ fields (Guid.clean str), P f) ↔ ∀ f ∈ fields (stripped str), P f := by
  rw [clean_eq, fields_map, List.forall_mem_map]
  exact forall₂_congr fun f _ => hP f

theorem strict_iff : Strict str ↔
    IsGuidText str ∨ (stripped str).length ≠ 32 ∨
      (∃ f ∈ fields (stripped str), ¬Accepted f) ∨ (∀ f ∈ fields (stripped str), magnitude f = 0) := by
  by_cases htext : IsGuidText str
  · exact iff_of_true ⟨fun _ => fromString_guidText htext, fun h => absurd htext h⟩ (Or.inl htext)
  have hstrict : Strict str ↔ Guid.fromString str = .zero :=
    ⟨fun h => h.2 htext, fun h => ⟨fun h => absurd h htext, fun _ => h⟩⟩
  have hzero := forall_clean_fields str (P := fun f => magnitude f = 0) fun f => by
    rw [magnitude, magnitude, run_map]
  have hfields := forall_clean_fields str (P := Accepted) fun f => by
    rw [accepted_iff, accepted_iff, run_map]
  rw [hstrict, or_iff_right htext, ← clean_length]
  by_cases hlength : (Guid.clean str).length = 32
  · rw [or_iff_right (not_not_intro hlength)]
    by_cases haccepted : ∀ f ∈ fields (Guid.clean str), Accepted f
    · have hnone : ¬∃ f ∈ fields (stripped str), ¬Accepted f := by
        push Not
        exact hfields.mp haccepted
      rw [or_iff_right hnone, fromString_accepted hlength haccepted, hzero]
    · have hrejected := mt hfields.mpr haccepted
      push Not at haccepted hrejected
      obtain ⟨f, hf, hf'⟩ := haccepted
      have hnone := (stoul16_none (fields_part hlength f hf).2.1).mpr hf'
      exact iff_of_true ((fromString_fields hlength).2 ⟨f, hf, hnone⟩) (Or.inl hrejected)
  · exact iff_of_true (fromString_length hlength) (Or.inl hlength)

theorem trailing_letter_accepted :
    ¬ Strict (asciiBytes "0fc63daf-8483-4772-8e79-3d69d8477dez") := by
  rintro ⟨-, hzero⟩
  have hlast : ¬IsGuidText (asciiBytes "0fc63daf-8483-4772-8e79-3d69d8477dez") := by
    intro h
    have hz := h.2 0x7A (by decide +kernel)
    cases hz
  have htaken : Guid.fromString (asciiBytes "0fc63daf-8483-4772-8e79-3d69d8477dez") ≠ .zero := by
    decide +kernel
  exact htaken (hzero hlast)

end Strictness

end Linux2Win.LooseGuids
