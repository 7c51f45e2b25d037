import Mathlib.Data.List.DropRight
import Mathlib.Data.List.TakeWhile

namespace Linux2Win.Joins

variable {α : Type} [DecidableEq α] (glue : α)

def join : List (List α) → List α
  | [] => []
  | [word] => word
  | word :: next :: words => word ++ glue :: join (next :: words)

def trim (l : List α) : List α := (l.dropWhile (· == glue)).rdropWhile (· == glue)

def Plain (words : List (List α)) : Prop := ∀ word ∈ words, word ≠ [] ∧ glue ∉ word

variable {glue} {words : List (List α)}

omit [DecidableEq α] in
theorem join_append (h : words ≠ []) (word : List α) :
    join glue (words ++ [word]) = join glue words ++ glue :: word := by
  induction words with
  | nil => exact absurd rfl h
  | cons first words ih =>
      cases words with
      | nil => rfl
      | cons next words =>
          change first ++ glue :: join glue (next :: words ++ [word]) = _
          rw [ih (List.cons_ne_nil _ _), join, List.append_assoc]
          rfl

omit [DecidableEq α] in
theorem flatMap_append (words : List (List α)) (word : List α) :
    (words.flatMap fun x => x ++ [glue]) ++ word = join glue (words ++ [word]) := by
  induction words with
  | nil => rfl
  | cons first words ih =>
      rw [List.flatMap_cons, List.append_assoc, List.append_assoc, ih]
      cases words with
      | nil => rfl
      | cons next words => rfl

omit [DecidableEq α] in
theorem flatMap_join (h : words ≠ []) :
    (words.flatMap fun x => x ++ [glue]) = join glue words ++ [glue] := by
  rw [← List.append_nil (words.flatMap _), flatMap_append, join_append h]

omit [DecidableEq α] in
theorem join_eq_nil (h : ∀ word ∈ words, word ≠ []) : join glue words = [] ↔ words = [] := by
  constructor
  · intro hnil
    match words, h with
    | [], _ => rfl
    | [word], h => exact absurd hnil (h word List.mem_cons_self)
    | word :: next :: words, _ => simp [join] at hnil
  · rintro rfl
    rfl

omit [DecidableEq α] in
theorem join_map {β : Type} (f : α → β) (words : List (List α)) :
    (join glue words).map f = join (f glue) (words.map (List.map f)) := by
  induction words with
  | nil => rfl
  | cons word words ih =>
      cases words with
      | nil => rfl
      | cons next words =>
          change (word ++ glue :: join glue (next :: words)).map f = _
          rw [List.map_append, List.map_cons, ih]
          rfl

omit [DecidableEq α] in
theorem mem_join {c : α} (h : c ∈ join glue words) : c = glue ∨ ∃ word ∈ words, c ∈ word := by
  induction words with
  | nil => cases h
  | cons word words ih =>
      cases words with
      | nil => exact Or.inr ⟨word, List.mem_cons_self, h⟩
      | cons next words =>
          rcases List.mem_append.mp h with h | h
          · exact Or.inr ⟨word, List.mem_cons_self, h⟩
          rcases List.mem_cons.mp h with h | h
          · exact Or.inl h
          · exact (ih h).imp_right fun ⟨part, hpart, hc⟩ => ⟨part, List.mem_cons_of_mem _ hpart, hc⟩

omit [DecidableEq α] in
theorem countP_join {p : α → Bool} (hglue : p glue = false) (words : List (List α)) :
    (join glue words).countP p = words.flatten.countP p := by
  induction words with
  | nil => rfl
  | cons word words ih =>
      cases words with
      | nil => rw [join, List.flatten_cons, List.flatten_nil, List.append_nil]
      | cons next words =>
          change (word ++ glue :: join glue (next :: words)).countP p = _
          rw [List.countP_append, List.countP_cons, ih, hglue]
          exact List.countP_append.symm

omit [DecidableEq α] in
theorem join_head (h : Plain glue words) : ∀ l, join glue words ≠ glue :: l := by
  intro l heq
  match words, h with
  | [word], h =>
      obtain rfl : word = glue :: l := heq
      exact (h _ List.mem_cons_self).2 List.mem_cons_self
  | word :: next :: words, h =>
      obtain ⟨hne, hno⟩ := h word List.mem_cons_self
      obtain ⟨c, word, rfl⟩ := List.exists_cons_of_ne_nil hne
      obtain ⟨rfl, _⟩ := List.cons.inj heq
      exact hno List.mem_cons_self

omit [DecidableEq α] in
theorem join_last (h : Plain glue words) : ∀ l, join glue words ≠ l ++ [glue] := by
  intro l heq
  rcases List.eq_nil_or_concat' words with rfl | ⟨front, word, rfl⟩
  · exact absurd heq.symm (by simp [join])
  · obtain ⟨hne, hno⟩ := h word (by simp)
    rw [← flatMap_append] at heq
    rcases List.eq_nil_or_concat' word with rfl | ⟨init, c, rfl⟩
    · exact hne rfl
    · rw [← List.append_assoc] at heq
      obtain ⟨_, hc⟩ := List.append_inj' heq rfl
      obtain rfl := List.singleton_injective hc
      exact hno (by simp)

omit [DecidableEq α] in
theorem mem_splitOnP {p : α → Bool} {l word : List α} (h : word ∈ l.splitOnP p) :
    ∀ c ∈ word, c ∈ l ∧ p c = false := by
  induction l generalizing word with
  | nil =>
      rw [List.splitOnP_nil, List.mem_singleton] at h
      subst h
      simp
  | cons a l ih =>
      have hlater : ∀ x ∈ l.splitOnP p, ∀ c ∈ x, c ∈ a :: l ∧ p c = false := fun x hx c hc =>
        ⟨List.mem_cons_of_mem _ (ih hx c hc).1, (ih hx c hc).2⟩
      rw [List.splitOnP_cons_eq_if_modifyHead] at h
      split at h
      · rcases List.mem_cons.mp h with rfl | h
        · simp
        · exact hlater word h
      · rename_i ha
        obtain ⟨first, rest, hsplit⟩ := List.exists_cons_of_ne_nil (List.splitOnP_ne_nil p l)
        rw [hsplit, List.forall_mem_cons] at hlater
        rw [hsplit, List.modifyHead_cons, List.mem_cons] at h
        rcases h with rfl | h
        · rw [List.forall_mem_cons]
          exact ⟨⟨List.mem_cons_self, by simpa using ha⟩, hlater.1⟩
        · exact hlater.2 word h

theorem splitOnP_join (h : Plain glue words) (hne : words ≠ []) :
    (join glue words).splitOnP (· == glue) = words := by
  have hfree : ∀ word ∈ words, ∀ c ∈ word, (c == glue) = false := by
    intro word hword c hc
    rw [beq_eq_false_iff_ne]
    rintro rfl
    exact (h word hword).2 hc
  clear h
  induction words with
  | nil => exact absurd rfl hne
  | cons word words ih =>
      obtain ⟨hword, hrest⟩ := List.forall_mem_cons.mp hfree
      cases words with
      | nil => exact List.splitOnP_eq_singleton hword
      | cons next words =>
          change (word ++ glue :: join glue (next :: words)).splitOnP (· == glue) = _
          rw [List.splitOnP_append_cons_of_forall_mem hword glue (beq_self_eq_true glue),
            ih (List.cons_ne_nil _ _) hrest]

theorem join_no_double (h : Plain glue words) (front back : List α) :
    join glue words ≠ front ++ glue :: glue :: back := by
  intro heq
  have hne : words ≠ [] := by
    rintro rfl
    cases front <;> cases heq
  have hsplit := splitOnP_join h hne
  rw [heq, List.splitOnP_append_cons (p := (· == glue)) _ _ (beq_self_eq_true glue),
    List.splitOnP_cons_eq_if_modifyHead, if_pos (beq_self_eq_true glue)] at hsplit
  have hempty : [] ∈ words := by
    rw [← hsplit]
    exact List.mem_append_right _ List.mem_cons_self
  exact (h [] hempty).1 rfl

theorem dropWhile_self {l : List α} (h : ∀ r, l ≠ glue :: r) : l.dropWhile (· == glue) = l := by
  cases l with
  | nil => rfl
  | cons a l =>
      rw [List.dropWhile_cons_of_neg]
      intro ha
      rw [beq_iff_eq] at ha
      subst ha
      exact h l rfl

theorem rdropWhile_self {l : List α} (h : ∀ r, l ≠ r ++ [glue]) : l.rdropWhile (· == glue) = l := by
  rcases List.eq_nil_or_concat' l with rfl | ⟨init, a, rfl⟩
  · rfl
  · refine List.rdropWhile_concat_neg _ _ _ fun ha => ?_
    rw [beq_iff_eq] at ha
    subst ha
    exact h init rfl

theorem trim_join (h : Plain glue words) : trim glue (join glue words) = join glue words := by
  rw [trim, dropWhile_self (join_head h), rdropWhile_self (join_last h)]

theorem trim_join_glue (h : Plain glue words) (hne : words ≠ []) :
    trim glue (join glue words ++ [glue]) = join glue words := by
  have hhead : ∀ r, join glue words ++ [glue] ≠ glue :: r := by
    intro r heq
    cases hj : join glue words with
    | nil => exact hne ((join_eq_nil fun x hx => (h x hx).1).mp hj)
    | cons a l =>
        rw [hj] at heq
        obtain ⟨rfl, _⟩ := List.cons.inj heq
        exact join_head h l hj
  rw [trim, dropWhile_self hhead, List.rdropWhile_concat_pos (· == glue) _ _ (beq_self_eq_true glue),
    rdropWhile_self (join_last h)]

end Linux2Win.Joins
