import Linux2Win.Guids
import Mathlib.Data.List.Induction
import Mathlib.Data.List.TakeWhile

namespace Linux2Win.GuidFields

open Bytes Guids

def unsigned (f : List Byte) : List Byte :=
  let s := f.dropWhile isSpace
  if s.head? == some 0x2B || s.head? == some 0x2D then s.tail else s

def run (f : List Byte) : List Nat := hexPrefix (dropHexPrefix (unsigned f))

def magnitude (f : List Byte) : Nat := hexNumber (run f)

def digitsOf (f : List Byte) : Nat := hexNumber (f.filterMap hexValue)

def AllHex (f : List Byte) : Prop := ∀ c ∈ f, (hexValue c).isSome = true

def Accepted (f : List Byte) : Prop :=
  ∃ blanks sign d rest, f = blanks ++ sign ++ d :: rest ∧ (∀ c ∈ blanks, isSpace c = true) ∧
    (sign = [] ∨ sign = [0x2B] ∨ sign = [0x2D]) ∧ (hexValue d).isSome = true

section Numbers

theorem hexNumber_append (xs : List Nat) (d : Nat) : hexNumber (xs ++ [d]) = 16 * hexNumber xs + d := by
  rw [hexNumber, List.foldl_append]
  rfl

theorem hexValue_lt {c : Byte} {d : Nat} (h : hexValue c = some d) : d < 16 := by
  unfold hexValue at h
  simp only [Bool.and_eq_true, decide_eq_true_eq, UInt8.le_iff_toNat_le] at h
  change (if 48 ≤ c.toNat ∧ c.toNat ≤ 57 then _ else if 97 ≤ c.toNat ∧ c.toNat ≤ 102 then _
    else if 65 ≤ c.toNat ∧ c.toNat ≤ 70 then _ else _) = _ at h
  split_ifs at h <;> cases h <;> omega

theorem hexPrefix_lt {s : List Byte} : ∀ d ∈ hexPrefix s, d < 16 := by
  induction s with
  | nil => simp [hexPrefix]
  | cons c cs ih =>
      rw [hexPrefix]
      cases hc : hexValue c with
      | none => simp
      | some d => exact List.forall_mem_cons.mpr ⟨hexValue_lt hc, ih⟩

theorem hexPrefix_length (s : List Byte) : (hexPrefix s).length ≤ s.length := by
  induction s with
  | nil => exact le_rfl
  | cons c cs ih =>
      rw [hexPrefix]
      cases hexValue c with
      | none => exact Nat.zero_le _
      | some d => exact Nat.succ_le_succ ih

theorem hexNumber_lt {ds : List Nat} (h : ∀ d ∈ ds, d < 16) : hexNumber ds < 16 ^ ds.length := by
  induction ds using List.reverseRecOn with
  | nil => decide
  | append_singleton ds d ih =>
      obtain ⟨hds, hd⟩ := List.forall_mem_append.mp h
      have hlast := hd d List.mem_cons_self
      have hfirst := ih hds
      rw [hexNumber_append, List.length_append, List.length_singleton, Nat.pow_succ]
      omega

end Numbers

section Conversion

variable {f : List Byte}

theorem unsigned_length (f : List Byte) : (unsigned f).length ≤ f.length := by
  have hdrop := (List.dropWhile_suffix isSpace (l := f)).length_le
  rw [unsigned]
  split
  · rw [List.length_tail]
    omega
  · exact hdrop

theorem dropHexPrefix_length (s : List Byte) : (dropHexPrefix s).length ≤ s.length := by
  unfold dropHexPrefix
  split
  · split
    · simp only [List.length_cons]
      omega
    · exact le_rfl
  · exact le_rfl

theorem magnitude_lt (f : List Byte) : magnitude f < 16 ^ f.length := by
  have hlength : (run f).length ≤ f.length :=
    (hexPrefix_length _).trans ((dropHexPrefix_length _).trans (unsigned_length f))
  exact (hexNumber_lt hexPrefix_lt).trans_le (Nat.pow_le_pow_right (by decide) hlength)

/-- A field has too few digits for the conversion to be out of range. -/
theorem stoul16_eq (hlength : f.length ≤ 8) : stoul16 f =
    if run f = [] then none
    else some (if (f.dropWhile isSpace).head? = some 0x2D then 0 - UInt32.ofNat (magnitude f)
      else UInt32.ofNat (magnitude f)) := by
  have hlt : magnitude f < 2 ^ 32 :=
    (magnitude_lt f).trans_le (Nat.pow_le_pow_right (by decide) hlength)
  rw [stoul16]
  change (if (run f).isEmpty || decide (magnitude f ≥ 2 ^ 32) then none
    else some (if (f.dropWhile isSpace).head? == some 0x2D then 0 - UInt32.ofNat (magnitude f)
      else UInt32.ofNat (magnitude f))) = _
  rw [decide_eq_false (Nat.not_le.mpr hlt), Bool.or_false]
  simp only [List.isEmpty_iff, beq_iff_eq]

theorem hexPrefix_ne_nil {s : List Byte} :
    hexPrefix s ≠ [] ↔ ∃ d rest, s = d :: rest ∧ (hexValue d).isSome = true := by
  cases s with
  | nil => simp [hexPrefix]
  | cons c cs =>
      rw [hexPrefix]
      cases hc : hexValue c <;> simp [hc]

/-- A prefix begins with a digit itself, so it does not decide whether there is one. -/
theorem run_ne_nil : run f ≠ [] ↔ hexPrefix (unsigned f) ≠ [] := by
  rw [run]
  generalize unsigned f = s
  unfold dropHexPrefix
  split
  · rename_i z x c cs
    split
    · rename_i hprefix
      simp only [Bool.and_eq_true, beq_iff_eq] at hprefix
      obtain ⟨⟨rfl, _⟩, hc⟩ := hprefix
      exact iff_of_true (hexPrefix_ne_nil.mpr ⟨_, _, rfl, hc⟩) (hexPrefix_ne_nil.mpr ⟨_, _, rfl, rfl⟩)
    · exact Iff.rfl
  · exact Iff.rfl

theorem hexValue_not_space : ∀ {c : Byte}, (hexValue c).isSome = true →
    isSpace c = false ∧ c ≠ 0x2B ∧ c ≠ 0x2D := fun {c} =>
  forall_byte (P := fun c => (hexValue c).isSome = true → isSpace c = false ∧ c ≠ 0x2B ∧ c ≠ 0x2D)
    (by decide +kernel) c

theorem accepted_iff : Accepted f ↔ run f ≠ [] := by
  rw [run_ne_nil, hexPrefix_ne_nil, unsigned]
  constructor
  · rintro ⟨blanks, sign, d, rest, rfl, hblanks, hsign, hd⟩
    obtain ⟨hspace, hplus, hminus⟩ := hexValue_not_space hd
    refine ⟨d, rest, ?_, hd⟩
    have hdrop : (blanks ++ sign ++ d :: rest).dropWhile isSpace = sign ++ d :: rest := by
      rw [List.append_assoc, List.dropWhile_append_of_pos hblanks]
      rcases hsign with rfl | rfl | rfl
      · rw [List.nil_append, List.dropWhile_cons_of_neg (by rw [hspace]; exact Bool.false_ne_true)]
      · rfl
      · rfl
    rw [hdrop]
    rcases hsign with rfl | rfl | rfl
    · simp [hplus, hminus]
    · rfl
    · rfl
  · rintro ⟨d, rest, hrest, hd⟩
    have hsplit := List.takeWhile_append_dropWhile (p := isSpace) (l := f)
    have hblanks : ∀ c ∈ f.takeWhile isSpace, isSpace c = true := fun c => List.mem_takeWhile_imp
    split at hrest
    · rename_i hsign
      simp only [Bool.or_eq_true, beq_iff_eq] at hsign
      cases hs : f.dropWhile isSpace with
      | nil => simp [hs] at hsign
      | cons c cs =>
          rw [hs, List.tail_cons] at hrest
          rw [hs, hrest] at hsplit
          refine ⟨f.takeWhile isSpace, [c], d, rest, ?_, hblanks, Or.inr ?_, hd⟩
          · rw [List.append_assoc]
            exact hsplit.symm
          · simpa [hs] using hsign
    · rw [hrest] at hsplit
      exact ⟨f.takeWhile isSpace, [], d, rest, by rw [List.append_nil]; exact hsplit.symm, hblanks,
        Or.inl rfl, hd⟩

theorem hexPrefix_allHex (h : AllHex f) : hexPrefix f = f.filterMap hexValue := by
  induction f with
  | nil => rfl
  | cons c cs ih =>
      obtain ⟨d, hd⟩ := Option.isSome_iff_exists.mp (h c List.mem_cons_self)
      rw [hexPrefix, hd, List.filterMap_cons_some hd, ih fun c hc => h c (List.mem_cons_of_mem _ hc)]

theorem dropHexPrefix_allHex (h : AllHex f) : dropHexPrefix f = f := by
  unfold dropHexPrefix
  split
  · rename_i z x c cs
    split
    · rename_i hprefix
      simp only [Bool.and_eq_true, Bool.or_eq_true, beq_iff_eq] at hprefix
      have hx := h x (List.mem_cons_of_mem _ List.mem_cons_self)
      obtain ⟨⟨_, rfl | rfl⟩, _⟩ := hprefix <;> cases hx
    · rfl
  · rfl

theorem head_allHex (h : AllHex f) : f.dropWhile isSpace = f ∧ unsigned f = f ∧
    f.head? ≠ some 0x2D := by
  cases f with
  | nil => exact ⟨rfl, rfl, by simp⟩
  | cons c cs =>
      obtain ⟨hspace, hplus, hminus⟩ := hexValue_not_space (h c List.mem_cons_self)
      have hdrop : (c :: cs).dropWhile isSpace = c :: cs :=
        List.dropWhile_cons_of_neg (by rw [hspace]; exact Bool.false_ne_true)
      refine ⟨hdrop, ?_, by simpa using hminus⟩
      rw [unsigned, hdrop]
      simp [hplus, hminus]

theorem run_allHex (h : AllHex f) : run f = f.filterMap hexValue := by
  rw [run, (head_allHex h).2.1, dropHexPrefix_allHex h, hexPrefix_allHex h]

theorem stoul16_allHex (h : AllHex f) (hne : f ≠ []) (hlength : f.length ≤ 8) :
    stoul16 f = some (UInt32.ofNat (digitsOf f)) := by
  obtain ⟨hdrop, hunsigned, hminus⟩ := head_allHex h
  have hrun : run f ≠ [] := by
    obtain ⟨c, cs, rfl⟩ := List.exists_cons_of_ne_nil hne
    exact run_ne_nil.mpr (hexPrefix_ne_nil.mpr ⟨c, cs, hunsigned, h c List.mem_cons_self⟩)
  rw [stoul16_eq hlength, if_neg hrun, hdrop, if_neg hminus, magnitude, run_allHex h]
  rfl

end Conversion

section Texts

def fields (s : List Byte) : List (List Byte) :=
  s.take 8 :: (s.drop 8).take 4 :: (s.drop 12).take 4 ::
    (List.range 8).map fun i => (s.drop (16 + i * 2)).take 2

def ofFields (value : List Byte → UInt32) (s : List Byte) : Guid :=
  ⟨value (s.take 8), (value ((s.drop 8).take 4)).toUInt16, (value ((s.drop 12).take 4)).toUInt16,
    (List.range 8).map fun i => (value ((s.drop (16 + i * 2)).take 2)).toUInt8, by simp⟩

theorem forall_fields {P : List Byte → Prop} {s : List Byte} : (∀ f ∈ fields s, P f) ↔
    P (s.take 8) ∧ P ((s.drop 8).take 4) ∧ P ((s.drop 12).take 4) ∧
      ∀ i < 8, P ((s.drop (16 + i * 2)).take 2) := by
  rw [fields, List.forall_mem_cons, List.forall_mem_cons, List.forall_mem_cons, List.forall_mem_map]
  simp only [List.mem_range]

variable {str : List Byte}

theorem fromString_length (h : (Guid.clean str).length ≠ 32) : Guid.fromString str = .zero := by
  rw [Guid.fromString, if_pos (bne_iff_ne.mpr h)]

def assemble (d1 d2 d3 : Option UInt32) (data4 : List (Option UInt32)) (h : data4.length = 8) : Guid :=
  match d1, d2, d3 with
  | some d1, some d2, some d3 =>
    if data4.all Option.isSome then
      ⟨d1, d2.toUInt16, d3.toUInt16, data4.map fun d => (d.getD 0).toUInt8, by rw [List.length_map, h]⟩
    else .zero
  | _, _, _ => .zero

theorem fromString_eq (h : (Guid.clean str).length = 32) :
    Guid.fromString str = assemble (stoul16 ((Guid.clean str).take 8))
      (stoul16 (((Guid.clean str).drop 8).take 4)) (stoul16 (((Guid.clean str).drop 12).take 4))
      ((List.range 8).map fun i => stoul16 (((Guid.clean str).drop (16 + i * 2)).take 2)) (by simp) := by
  rw [Guid.fromString, if_neg (by rw [h]; decide)]
  rfl

theorem assemble_zero {d1 d2 d3 : Option UInt32} {data4 : List (Option UInt32)} (h : data4.length = 8)
    (hnone : d1 = none ∨ d2 = none ∨ d3 = none ∨ none ∈ data4) :
    assemble d1 d2 d3 data4 h = .zero := by
  cases d1 <;> cases d2 <;> cases d3 <;> try rfl
  have hmem : none ∈ data4 := by simpa using hnone
  refine if_neg fun hall => ?_
  cases List.all_eq_true.mp hall none hmem

theorem fromString_fields (h : (Guid.clean str).length = 32) :
    ((∀ f ∈ fields (Guid.clean str), (stoul16 f).isSome = true) →
      Guid.fromString str = ofFields (fun f => (stoul16 f).getD 0) (Guid.clean str)) ∧
    ((∃ f ∈ fields (Guid.clean str), stoul16 f = none) → Guid.fromString str = .zero) := by
  rw [fromString_eq h]
  generalize Guid.clean str = s
  constructor
  · intro hall
    obtain ⟨h1, h2, h3, h4⟩ := forall_fields.mp hall
    obtain ⟨d1, h1⟩ := Option.isSome_iff_exists.mp h1
    obtain ⟨d2, h2⟩ := Option.isSome_iff_exists.mp h2
    obtain ⟨d3, h3⟩ := Option.isSome_iff_exists.mp h3
    have hdata : ((List.range 8).map fun i => stoul16 ((s.drop (16 + i * 2)).take 2)).all
        Option.isSome = true := by
      rw [List.all_map, List.all_eq_true]
      exact fun i hi => h4 i (List.mem_range.mp hi)
    simp only [assemble, h1, h2, h3, hdata, if_true, ofFields, Option.getD_some, List.map_map]
    rfl
  · rintro ⟨f, hf, hnone⟩
    rw [fields, List.mem_cons, List.mem_cons, List.mem_cons, List.mem_map] at hf
    apply assemble_zero
    rcases hf with rfl | rfl | rfl | ⟨i, hi, rfl⟩
    · exact Or.inl hnone
    · exact Or.inr (Or.inl hnone)
    · exact Or.inr (Or.inr (Or.inl hnone))
    · exact Or.inr (Or.inr (Or.inr (List.mem_map.mpr ⟨i, hi, hnone⟩)))

end Texts

end Linux2Win.GuidFields
