import Mathlib.Data.List.AList

namespace Linux2Win.Caches

section First

variable {α β : Type} {p : α → Bool} {as : List α} {i : Nat}

def IsFirst (p : α → Bool) (as : List α) (i : Nat) : Prop :=
  ∃ front a back, as = front ++ a :: back ∧ front.length = i ∧ p a = true ∧ ∀ x ∈ front, p x = false

theorem isFirst_iff {a : α} :
    as.find? p = some a ↔ ∃ i, IsFirst p as i ∧ as[i]? = some a := by
  rw [List.find?_eq_some_iff_append]
  constructor
  · rintro ⟨ha, front, back, rfl, hfront⟩
    refine ⟨front.length, ⟨front, a, back, rfl, rfl, ha, fun x hx => ?_⟩, by simp⟩
    simpa using hfront x hx
  · rintro ⟨_, ⟨front, b, back, rfl, rfl, hb, hfront⟩, hget⟩
    obtain rfl : b = a := by simpa using hget
    exact ⟨hb, front, back, rfl, fun x hx => by simp [hfront x hx]⟩

theorem IsFirst.unique {j : Nat} (hi : IsFirst p as i) (hj : IsFirst p as j) : i = j := by
  obtain ⟨front, a, back, rfl, rfl, ha, hfront⟩ := hi
  obtain ⟨front', b, back', heq, rfl, hb, hfront'⟩ := hj
  rcases List.append_eq_append_iff.mp heq with ⟨mid, rfl, hmid⟩ | ⟨mid, rfl, hmid⟩
  · cases mid with
    | nil => simp
    | cons x mid =>
        obtain ⟨rfl, _⟩ := List.cons.inj hmid
        rw [hfront' a (by simp)] at ha
        cases ha
  · cases mid with
    | nil => simp
    | cons x mid =>
        obtain ⟨rfl, _⟩ := List.cons.inj hmid
        rw [hfront b (by simp)] at hb
        cases hb

theorem find_zip (p : α → Bool) {bs : List β} (hlen : bs.length = as.length) :
    (as.find? p = none ∧ (bs.zip as).find? (fun x => p x.2) = none) ∨
      ∃ i a b, IsFirst p as i ∧ as[i]? = some a ∧ bs[i]? = some b ∧ as.find? p = some a ∧
        (bs.zip as).find? (fun x => p x.2) = some (b, a) := by
  induction as generalizing bs with
  | nil => exact Or.inl ⟨rfl, by simp⟩
  | cons a as ih =>
      cases bs with
      | nil => cases hlen
      | cons b bs =>
          rw [List.zip_cons_cons, List.find?_cons, List.find?_cons]
          cases ha : p a with
          | true => exact Or.inr ⟨0, a, b, ⟨[], a, as, rfl, rfl, ha, by simp⟩, rfl, rfl, rfl, rfl⟩
          | false =>
              rcases ih (by simpa using hlen) with hnone | ⟨i, a', b', hfirst, hget, hval, hfind⟩
              · exact Or.inl hnone
              · obtain ⟨front, x, back, rfl, rfl, hx, hfront⟩ := hfirst
                refine Or.inr ⟨front.length + 1, a', b', ⟨a :: front, x, back, rfl, rfl, hx, ?_⟩,
                  hget, hval, hfind⟩
                simp only [List.forall_mem_cons]
                exact ⟨ha, hfront⟩

end First

section Last

variable {κ α : Type} [DecidableEq κ] (key : α → κ)

def insertAll : AList (fun _ : κ => Nat) → Nat → List α → AList fun _ : κ => Nat
  | c, _, [] => c
  | c, n, a :: as => insertAll (c.insert (key a) n) (n + 1) as

def IsLast (as : List α) (q : κ) (i : Nat) : Prop :=
  ∃ front a back, as = front ++ a :: back ∧ front.length = i ∧ key a = q ∧ ∀ b ∈ back, key b ≠ q

variable {key} {c : AList fun _ : κ => Nat} {n : Nat} {as : List α} {q : κ}

theorem insertAll_append (as bs : List α) :
    insertAll key c n (as ++ bs) = insertAll key (insertAll key c n as) (n + as.length) bs := by
  induction as generalizing c n with
  | nil => rfl
  | cons a as ih =>
      rw [List.cons_append, insertAll, ih, insertAll, List.length_cons]
      congr 1
      omega

theorem lookup_insertAll_absent (h : ∀ a ∈ as, key a ≠ q) :
    (insertAll key c n as).lookup q = c.lookup q := by
  induction as generalizing c n with
  | nil => rfl
  | cons a as ih =>
      rw [insertAll, ih fun b hb => h b (List.mem_cons_of_mem _ hb)]
      exact AList.lookup_insert_ne (h a List.mem_cons_self).symm

theorem lookup_insertAll_last {i : Nat} (h : IsLast key as q i) :
    (insertAll key c n as).lookup q = some (n + i) := by
  obtain ⟨front, a, back, rfl, rfl, rfl, hback⟩ := h
  rw [insertAll_append, insertAll, lookup_insertAll_absent hback, AList.lookup_insert]

theorem exists_isLast (h : ∃ a ∈ as, key a = q) : ∃ i, IsLast key as q i := by
  induction as with
  | nil => simp at h
  | cons a as ih =>
      by_cases hlater : ∃ b ∈ as, key b = q
      · obtain ⟨i, front, b, back, rfl, rfl, hb, hback⟩ := ih hlater
        exact ⟨_, a :: front, b, back, rfl, rfl, hb, hback⟩
      · obtain ⟨b, hb, rfl⟩ := h
        rcases List.mem_cons.mp hb with rfl | hb
        · exact ⟨0, [], b, as, rfl, rfl, rfl, fun x hx he => hlater ⟨x, hx, he⟩⟩
        · exact absurd ⟨b, hb, rfl⟩ hlater

omit [DecidableEq κ] in
theorem IsLast.getElem {i : Nat} (h : IsLast key as q i) : ∃ a, as[i]? = some a ∧ key a = q := by
  obtain ⟨front, a, back, rfl, rfl, ha, _⟩ := h
  exact ⟨a, by simp, ha⟩

theorem IsLast.unique {i j : Nat} (hi : IsLast key as q i) (hj : IsLast key as q j) : i = j := by
  have hlast : ∀ k, IsLast key as q k → (insertAll key ∅ 0 as).lookup q = some (0 + k) :=
    fun k hk => lookup_insertAll_last hk
  have h := (hlast i hi).symm.trans (hlast j hj)
  simpa using h

/-- What is stored under a key after the insertions: the place of the last element
with the key, or else what was there before. -/
theorem lookup_insertAll_cases (c : AList fun _ : κ => Nat) (n : Nat) (as : List α) (q : κ) :
    (∃ i, IsLast key as q i ∧ (insertAll key c n as).lookup q = some (n + i)) ∨
      (∀ a ∈ as, key a ≠ q) ∧ (insertAll key c n as).lookup q = c.lookup q := by
  by_cases h : ∃ a ∈ as, key a = q
  · obtain ⟨i, hi⟩ := exists_isLast h
    exact Or.inl ⟨i, hi, lookup_insertAll_last hi⟩
  · have habsent : ∀ a ∈ as, key a ≠ q := fun a ha he => h ⟨a, ha, he⟩
    exact Or.inr ⟨habsent, lookup_insertAll_absent habsent⟩

end Last

end Linux2Win.Caches
