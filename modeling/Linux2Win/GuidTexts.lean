import Linux2Win.GuidFields

namespace Linux2Win.GuidTexts

open Bytes Guids GuidFields

def toUpper (c : Byte) : Byte := if 0x61 ≤ c && c ≤ 0x7A then c - 0x20 else c

def recase (upper : Nat → Bool) (text : List Byte) : List Byte :=
  text.mapIdx fun i c => if upper i then toUpper c else c

def braced (text : List Byte) : List Byte := [0x7B] ++ text ++ [0x7D]

def undashed (text : List Byte) : List Byte := text.filter (· != 0x2D)

section Cleaning

theorem clean_append (s t : List Byte) : Guid.clean (s ++ t) = Guid.clean s ++ Guid.clean t := by
  simp only [Guid.clean, List.filter_append, List.map_append]

theorem toUpper_facts : ∀ c, toLower (toUpper c) = toLower c ∧
    (toUpper c != 0x2D && toUpper c != 0x7B && toUpper c != 0x7D) =
      (c != 0x2D && c != 0x7B && c != 0x7D) :=
  forall_byte (by decide +kernel)

theorem clean_cons (c : Byte) (cs : List Byte) : Guid.clean (c :: cs) =
    if c != 0x2D && c != 0x7B && c != 0x7D then toLower c :: Guid.clean cs else Guid.clean cs := by
  rw [Guid.clean, List.filter_cons]
  split <;> rfl

theorem clean_recase (upper : Nat → Bool) (text : List Byte) :
    Guid.clean (recase upper text) = Guid.clean text := by
  induction text generalizing upper with
  | nil => rfl
  | cons c cs ih =>
      obtain ⟨hlower, hkept⟩ := toUpper_facts c
      have hcons : recase upper (c :: cs) =
          (if upper 0 then toUpper c else c) :: recase (fun i => upper (i + 1)) cs := by
        rw [recase, List.mapIdx_cons]
        rfl
      rw [hcons, clean_cons, clean_cons, ih]
      cases upper 0 with
      | false => rfl
      | true => rw [if_pos rfl, hkept, hlower]

theorem clean_braced (text : List Byte) : Guid.clean (braced text) = Guid.clean text := by
  rw [braced, clean_append, clean_append]
  exact List.append_nil _

theorem clean_undashed (text : List Byte) : Guid.clean (undashed text) = Guid.clean text := by
  rw [undashed, Guid.clean, List.filter_filter]
  congr 1
  apply List.filter_congr
  intro c _
  cases c != 0x2D <;> simp

theorem fromString_congr {s t : List Byte} (h : Guid.clean s = Guid.clean t) :
    Guid.fromString s = Guid.fromString t := by
  rw [Guid.fromString, Guid.fromString, h]

end Cleaning

section Printing

def digitByte (d : Nat) : Byte := UInt8.ofNat d.digitChar.toNat

def Numeral (width n : Nat) (text : List Byte) : Prop :=
  ∃ ds : List Nat, ds.length = width ∧ (∀ d ∈ ds, d < 16) ∧ text = ds.map digitByte ∧ hexNumber ds = n

theorem digitByte_facts : ∀ d < 16, hexValue (digitByte d) = some d ∧
    Guid.clean [digitByte d] = [digitByte d] := by
  decide +kernel

theorem hexNumber_replicate_append (k : Nat) (ds : List Nat) :
    hexNumber (List.replicate k 0 ++ ds) = hexNumber ds := by
  have hzero : (List.replicate k 0).foldl (fun n d => 16 * n + d) 0 = 0 := by
    induction k with
    | zero => rfl
    | succ k ih => simpa [List.replicate_succ] using ih
  rw [hexNumber, List.foldl_append, hzero]
  rfl

theorem toDigits_numeral (n : Nat) :
    Numeral (Nat.toDigits 16 n).length n ((Nat.toDigits 16 n).map fun c => UInt8.ofNat c.toNat) := by
  induction n using Nat.strongRecOn with
  | ind n ih =>
      rw [Nat.toDigits_eq_if (by decide)]
      split
      · rename_i hn
        exact ⟨[n], rfl, by simpa using hn, rfl, by simp [hexNumber]⟩
      · obtain ⟨ds, hlength, hlt, hmap, hnumber⟩ := ih (n / 16) (by omega)
        refine ⟨ds ++ [n % 16], ?_, ?_, ?_, ?_⟩
        · rw [List.length_append, hlength, List.length_append]
          rfl
        · intro d hd
          rcases List.mem_append.mp hd with hd | hd
          · exact hlt d hd
          · rw [List.mem_singleton.mp hd]
            exact Nat.mod_lt n (by decide)
        · rw [List.map_append, List.map_append, hmap]
          rfl
        · rw [hexNumber_append, hnumber]
          omega

theorem hexPadded_numeral {width n : Nat} (hwidth : 0 < width) (hn : n < 16 ^ width) :
    Numeral width n (hexPadded width n) := by
  obtain ⟨ds, hlength, hlt, hmap, hnumber⟩ := toDigits_numeral n
  have hfits : (Nat.toDigits 16 n).length ≤ width :=
    (Nat.length_toDigits_le_iff (by decide) hwidth).mpr hn
  refine ⟨List.replicate (width - ds.length) 0 ++ ds, ?_, ?_, ?_, ?_⟩
  · rw [List.length_append, List.length_replicate]
    omega
  · intro d hd
    rcases List.mem_append.mp hd with hd | hd
    · rw [List.eq_of_mem_replicate hd]
      decide
    · exact hlt d hd
  · rw [List.map_append, List.map_replicate, ← hmap, hlength]
    simp only [hexPadded, List.length_map]
    rfl
  · rw [hexNumber_replicate_append, hnumber]

variable {width n : Nat} {text : List Byte}

theorem Numeral.length_eq (h : Numeral width n text) : text.length = width := by
  obtain ⟨ds, hlength, -, rfl, -⟩ := h
  rw [List.length_map, hlength]

theorem Numeral.clean_eq (h : Numeral width n text) : Guid.clean text = text := by
  obtain ⟨ds, -, hlt, rfl, -⟩ := h
  induction ds with
  | nil => rfl
  | cons d ds ih =>
      obtain ⟨hd, hds⟩ := List.forall_mem_cons.mp hlt
      rw [List.map_cons, ← List.singleton_append, clean_append, (digitByte_facts d hd).2, ih hds]

theorem Numeral.allHex (h : Numeral width n text) : AllHex text := by
  obtain ⟨ds, -, hlt, rfl, -⟩ := h
  intro c hc
  obtain ⟨d, hd, rfl⟩ := List.mem_map.mp hc
  rw [(digitByte_facts d (hlt d hd)).1]
  rfl

theorem Numeral.filter_dash (h : Numeral width n text) : text.filter (· != 0x2D) = text := by
  rw [List.filter_eq_self]
  intro c hc
  have hvalue := h.allHex c hc
  rw [bne_iff_ne]
  rintro rfl
  exact absurd hvalue (by decide)

theorem Numeral.digitsOf_eq (h : Numeral width n text) : digitsOf text = n := by
  obtain ⟨ds, -, hlt, rfl, rfl⟩ := h
  have hdigits : ds.filterMap (hexValue ∘ digitByte) = ds.filterMap some :=
    List.filterMap_congr fun d hd => (digitByte_facts d (hlt d hd)).1
  rw [digitsOf, List.filterMap_map, hdigits, List.filterMap_some]

theorem Numeral.stoul16_eq (h : Numeral width n text) (hpos : 0 < width) (hfits : width ≤ 8) :
    stoul16 text = some (UInt32.ofNat n) := by
  have hlength := h.length_eq
  rw [stoul16_allHex h.allHex (List.ne_nil_of_length_pos (by omega)) (by omega), h.digitsOf_eq]

end Printing

section RoundTrip

variable (g : Guid)

theorem flatMap_two {xs : List Byte} {f : Byte → List Byte} (hf : ∀ x, (f x).length = 2) :
    (xs.flatMap f).length = xs.length * 2 ∧
    ∀ (i : Nat) (hi : i < xs.length), ((xs.flatMap f).drop (i * 2)).take 2 = f xs[i] := by
  induction xs with
  | nil => exact ⟨rfl, by simp⟩
  | cons x xs ih =>
      refine ⟨by rw [List.flatMap_cons, List.length_append, hf, ih.1, List.length_cons]; omega, ?_⟩
      intro i hi
      rw [List.flatMap_cons]
      cases i with
      | zero => exact List.take_left' (hf x)
      | succ i =>
          have hdrop : (f x ++ xs.flatMap f).drop ((i + 1) * 2) = (xs.flatMap f).drop (i * 2) := by
            rw [Nat.succ_mul, Nat.add_comm, ← List.drop_drop, List.drop_left' (hf x)]
          rw [hdrop, ih.2 i (Nat.lt_of_succ_lt_succ hi)]
          rfl

def digits (g : Guid) : List Byte :=
  hexPadded 8 g.data1.toNat ++ (hexPadded 4 g.data2.toNat ++ (hexPadded 4 g.data3.toNat ++
    g.data4.flatMap (hexPadded 2 ·.toNat)))

theorem data1_numeral : Numeral 8 g.data1.toNat (hexPadded 8 g.data1.toNat) :=
  hexPadded_numeral (by decide) g.data1.toNat_lt

theorem short_numeral (n : UInt16) : Numeral 4 n.toNat (hexPadded 4 n.toNat) :=
  hexPadded_numeral (by decide) n.toNat_lt

theorem byte_numeral (n : Byte) : Numeral 2 n.toNat (hexPadded 2 n.toNat) :=
  hexPadded_numeral (by decide) n.toNat_lt

theorem hexPadded_injective {a b : Byte} (h : hexPadded 2 a.toNat = hexPadded 2 b.toNat) : a = b :=
  UInt8.toNat_inj.mp ((byte_numeral a).digitsOf_eq.symm.trans
    ((congrArg digitsOf h).trans (byte_numeral b).digitsOf_eq))

theorem clean_flatMap (xs : List Byte) :
    Guid.clean (xs.flatMap (hexPadded 2 ·.toNat)) = xs.flatMap (hexPadded 2 ·.toNat) := by
  induction xs with
  | nil => rfl
  | cons x xs ih => rw [List.flatMap_cons, clean_append, (byte_numeral x).clean_eq, ih]

theorem clean_toString : Guid.clean g.toString = digits g := by
  have hdash : Guid.clean [0x2D] = [] := rfl
  simp only [Guid.toString, clean_append, (data1_numeral g).clean_eq, (short_numeral _).clean_eq,
    clean_flatMap, hdash, List.nil_append, List.append_assoc]
  rw [← List.flatMap_append, List.take_append_drop]
  rfl

theorem digits_length : (digits g).length = 32 := by
  rw [digits, List.length_append, List.length_append, List.length_append, (data1_numeral g).length_eq,
    (short_numeral _).length_eq, (short_numeral _).length_eq,
    (flatMap_two fun x => (byte_numeral x).length_eq).1, g.data4_length]

theorem digits_data1 : (digits g).take 8 = hexPadded 8 g.data1.toNat :=
  List.take_left' (data1_numeral g).length_eq

theorem digits_data2 : ((digits g).drop 8).take 4 = hexPadded 4 g.data2.toNat := by
  rw [digits, List.drop_left' (data1_numeral g).length_eq,
    List.take_left' (short_numeral _).length_eq]

theorem digits_drop : (digits g).drop 12 = hexPadded 4 g.data3.toNat ++
    g.data4.flatMap (hexPadded 2 ·.toNat) := by
  rw [digits, ← List.drop_drop (i := 4) (j := 8), List.drop_left' (data1_numeral g).length_eq,
    List.drop_left' (short_numeral _).length_eq]

theorem digits_data3 : ((digits g).drop 12).take 4 = hexPadded 4 g.data3.toNat := by
  rw [digits_drop, List.take_left' (short_numeral _).length_eq]

theorem digits_data4 (i : Nat) (hi : i < g.data4.length) :
    ((digits g).drop (16 + i * 2)).take 2 = hexPadded 2 g.data4[i].toNat := by
  have hdrop : (digits g).drop (16 + i * 2) = (g.data4.flatMap (hexPadded 2 ·.toNat)).drop (i * 2) := by
    rw [← List.drop_drop (i := i * 2) (j := 16), ← List.drop_drop (i := 4) (j := 12), digits_drop,
      List.drop_left' (short_numeral _).length_eq]
  rw [hdrop, (flatMap_two fun x => (byte_numeral x).length_eq).2 i hi]

theorem digits_fields : (∀ f ∈ fields (digits g), (stoul16 f).isSome = true) ∧
    ofFields (fun f => (stoul16 f).getD 0) (digits g) = g := by
  have h1 := (data1_numeral g).stoul16_eq (by decide) (by decide)
  have h2 := (short_numeral g.data2).stoul16_eq (by decide) (by decide)
  have h3 := (short_numeral g.data3).stoul16_eq (by decide) (by decide)
  have h4 (i : Nat) (hi : i < g.data4.length) :
      stoul16 (((digits g).drop (16 + i * 2)).take 2) = some (UInt32.ofNat g.data4[i].toNat) := by
    rw [digits_data4 g i hi]
    exact (byte_numeral g.data4[i]).stoul16_eq (by decide) (by decide)
  rw [← digits_data1] at h1
  rw [← digits_data2] at h2
  rw [← digits_data3] at h3
  constructor
  · rw [forall_fields, h1, h2, h3]
    refine ⟨rfl, rfl, rfl, ?_⟩
    intro i hi
    rw [h4 i (by rw [g.data4_length]; exact hi)]
    rfl
  · have hdata4 : ((List.range 8).map fun i =>
        ((stoul16 (((digits g).drop (16 + i * 2)).take 2)).getD 0).toUInt8) = g.data4 := by
      apply List.ext_getElem
      · rw [List.length_map, List.length_range, g.data4_length]
      · intro i _ hi
        rw [List.getElem_map, List.getElem_range, h4 i hi]
        simp
    simp only [ofFields, h1, h2, h3, hdata4]
    simp

theorem fromString_toString : Guid.fromString g.toString = g := by
  have hlength : (Guid.clean g.toString).length = 32 := by rw [clean_toString, digits_length]
  have hfields := (fromString_fields hlength).1
  rw [clean_toString] at hfields
  rw [hfields (digits_fields g).1, (digits_fields g).2]

theorem text_round_trip (upper : Nat → Bool) :
    Guid.fromString g.toString = g ∧
    Guid.fromString (recase upper g.toString) = g ∧
    Guid.fromString (braced (recase upper g.toString)) = g ∧
    Guid.fromString (undashed (recase upper g.toString)) = g ∧
    Guid.fromString (braced (undashed (recase upper g.toString))) = g := by
  refine ⟨fromString_toString g, ?_, ?_, ?_, ?_⟩ <;> refine (fromString_congr ?_).trans (fromString_toString g)
  · exact clean_recase upper _
  · exact (clean_braced _).trans (clean_recase upper _)
  · exact (clean_undashed _).trans (clean_recase upper _)
  · exact (clean_braced _).trans ((clean_undashed _).trans (clean_recase upper _))

end RoundTrip

end Linux2Win.GuidTexts
