import Linux2Win.Joins
import Linux2Win.Vfs

namespace Linux2Win.PathNames

open Bytes Directory Vfs Joins

/-- A name that paths can spell: not empty, and free of separators. -/
def PlainName (name : Name) : Prop := name ≠ [] ∧ ∀ c ∈ name, isSeparator c = false

/-- The path of the names, as the tree spells it. -/
abbrev joinNames (names : List Name) : Name := join backslash names

variable {names : List Name}

theorem plainName_of_separators {name : Name} (hne : name ≠ []) (hslash : slash ∉ name)
    (hbackslash : backslash ∉ name) : PlainName name := by
  refine ⟨hne, fun c hc => ?_⟩
  rw [isSeparator, Bool.or_eq_false_iff, beq_eq_false_iff_ne, beq_eq_false_iff_ne]
  constructor
  · rintro rfl
    exact hslash hc
  · rintro rfl
    exact hbackslash hc

theorem plain_of_names (h : ∀ name ∈ names, PlainName name) : Plain backslash names := by
  intro name hname
  refine ⟨(h name hname).1, fun hmem => ?_⟩
  have := (h name hname).2 backslash hmem
  cases this

theorem childInfo_path {parent : NodeInfo} (hpath : parent.relativePath = joinNames names)
    (hne : ∀ name ∈ names, name ≠ []) (e : DirEntryInfo) (st : FileStat) :
    (childInfo parent e st).relativePath = joinNames (names ++ [e.name]) := by
  change (if parent.relativePath.isEmpty then e.name else
    parent.relativePath ++ [backslash] ++ e.name) = _
  by_cases hnames : names = []
  · subst hnames
    rw [hpath]
    rfl
  · have hparent : ¬parent.relativePath.isEmpty = true := by
      rw [hpath, List.isEmpty_iff]
      exact fun hnil => hnames ((join_eq_nil hne).mp hnil)
    rw [if_neg hparent, joinNames, join_append hnames, hpath, List.append_assoc]
    rfl

section Components

def components (path : Name) : List Name := (path.splitOnP isSeparator).filter (!·.isEmpty)

theorem components_word {word : Name} (h : ∀ c ∈ word, isSeparator c = false) :
    components word = if word.isEmpty then [] else [word] := by
  rw [components, List.splitOnP_eq_singleton h, List.filter_cons]
  cases word <;> rfl

theorem components_append_cons (front back : Name) {c : Byte} (hc : isSeparator c = true) :
    components (front ++ c :: back) = components front ++ components back := by
  rw [components, List.splitOnP_append_cons _ _ hc, List.filter_append, components, components]

def finishParts (s : List Name × Name) : List Name := if s.2.isEmpty then s.1 else s.1 ++ [s.2]

theorem fold_components (path : Name) (parts : List Name) {current : Name}
    (h : ∀ c ∈ current, isSeparator c = false) :
    finishParts (path.foldl splitStep (parts, current)) = parts ++ components (current ++ path) := by
  induction path generalizing parts current with
  | nil =>
      rw [List.foldl_nil, List.append_nil, components_word h, finishParts]
      cases current with
      | nil => exact (List.append_nil parts).symm
      | cons c current => rfl
  | cons c path ih =>
      rw [List.foldl_cons, splitStep]
      cases hc : isSeparator c with
      | false =>
          have hword : ∀ x ∈ current ++ [c], isSeparator x = false := by
            rw [List.forall_mem_append, List.forall_mem_singleton]
            exact ⟨h, hc⟩
          rw [if_neg Bool.false_ne_true, ih parts hword, List.append_assoc]
          rfl
      | true =>
          rw [if_pos rfl, components_append_cons _ _ hc, components_word h]
          cases current with
          | nil => exact ih parts h
          | cons x current =>
              have hnil : ∀ y ∈ ([] : Name), isSeparator y = false := by simp
              rw [List.isEmpty_cons, if_neg Bool.false_ne_true, if_neg Bool.false_ne_true,
                ih (parts ++ [x :: current]) hnil, List.append_assoc]
              rfl

theorem pathParts_eq (path : Name) : pathParts path = components path := by
  have hnil : ∀ c ∈ ([] : Name), isSeparator c = false := by simp
  exact fold_components path [] hnil

theorem mem_components {path name : Name} (h : name ∈ components path) :
    PlainName name ∧ ∀ c ∈ name, c ∈ path := by
  obtain ⟨hmem, hne⟩ := List.mem_filter.mp h
  have hsplit := mem_splitOnP hmem
  exact ⟨⟨by simpa using hne, fun c hc => (hsplit c hc).2⟩, fun c hc => (hsplit c hc).1⟩

theorem components_plain {name : Name} (h : PlainName name) : components name = [name] := by
  rw [components_word h.2, if_neg (by simpa using h.1)]

theorem components_join (h : ∀ name ∈ names, PlainName name) : components (joinNames names) = names := by
  induction names with
  | nil => rfl
  | cons word names ih =>
      obtain ⟨hword, hrest⟩ := List.forall_mem_cons.mp h
      cases names with
      | nil => exact components_plain hword
      | cons next names =>
          change components (word ++ backslash :: joinNames (next :: names)) = _
          rw [components_append_cons _ _ rfl, components_plain hword, ih hrest]
          rfl

theorem pathParts_plain (path : Name) : ∀ name ∈ pathParts path, PlainName name := by
  intro name hname
  rw [pathParts_eq] at hname
  exact (mem_components hname).1

theorem mem_pathParts {path name : Name} (hname : name ∈ pathParts path) : ∀ c ∈ name, c ∈ path := by
  rw [pathParts_eq] at hname
  exact (mem_components hname).2

theorem pathParts_join (h : ∀ name ∈ names, PlainName name) : pathParts (joinNames names) = names := by
  rw [pathParts_eq, components_join h]

end Components

theorem norm_after_parts (parts : List Name) {c : Byte} (hc : isSeparator c = true) :
    normStep (parts.flatMap fun x => x ++ [backslash]) c = parts.flatMap fun x => x ++ [backslash] := by
  rw [normStep, if_pos hc]
  apply if_neg
  rcases List.eq_nil_or_concat' parts with rfl | ⟨front, name, rfl⟩
  · simp
  · simp [List.getLast?_append]

theorem norm_after_name (front : Name) {current : Name} {c : Byte} (hc : isSeparator c = true)
    (hne : current ≠ []) (hplain : ∀ x ∈ current, isSeparator x = false) :
    normStep (front ++ current) c = front ++ current ++ [backslash] := by
  rw [normStep, if_pos hc]
  apply if_pos
  rcases List.eq_nil_or_concat' current with rfl | ⟨init, x, rfl⟩
  · exact absurd rfl hne
  · have hx : x ≠ backslash := by
      rintro rfl
      have := hplain backslash (by simp)
      cases this
    simp [← List.append_assoc, hx]

theorem fold_steps (path : Name) :
    path.foldl normStep [] =
        ((path.foldl splitStep ([], [])).1.flatMap fun x => x ++ [backslash]) ++
          (path.foldl splitStep ([], [])).2 ∧
      ∀ c ∈ (path.foldl splitStep ([], [])).2, isSeparator c = false := by
  induction path using List.reverseRecOn with
  | nil => exact ⟨rfl, nofun⟩
  | append_singleton path c ih =>
      rw [List.foldl_append, List.foldl_append, List.foldl_cons, List.foldl_cons, List.foldl_nil,
        List.foldl_nil]
      generalize path.foldl normStep [] = norm at ih ⊢
      generalize path.foldl splitStep ([], []) = s at ih ⊢
      obtain ⟨parts, current⟩ := s
      obtain ⟨rfl, hcurrent⟩ := ih
      rw [splitStep]
      cases hc : isSeparator c with
      | false =>
          rw [normStep, hc, if_neg Bool.false_ne_true, if_neg Bool.false_ne_true]
          refine ⟨List.append_assoc _ _ _, fun x hx => ?_⟩
          rcases List.mem_append.mp hx with hx | hx
          · exact hcurrent x hx
          · rw [List.mem_singleton.mp hx, hc]
      | true =>
          rw [if_pos rfl]
          cases current with
          | nil =>
              rw [List.append_nil, norm_after_parts parts hc]
              exact ⟨(List.append_nil _).symm, nofun⟩
          | cons x current =>
              rw [norm_after_name _ hc (List.cons_ne_nil _ _) hcurrent]
              exact ⟨by simp, nofun⟩

/-- A normalized path consists of the parts that `lookup_path` sees. -/
theorem normalizePath_eq (path : Name) : normalizePath path = joinNames (pathParts path) := by
  have hplain := plain_of_names (pathParts_plain path)
  obtain ⟨hnorm, _⟩ := fold_steps path
  change trim backslash (path.foldl normStep []) = _
  rw [hnorm]
  rw [pathParts] at hplain ⊢
  generalize path.foldl splitStep ([], []) = s at hplain ⊢
  obtain ⟨parts, current⟩ := s
  dsimp only at hplain ⊢
  split at hplain
  · rename_i hnil
    rw [if_pos hnil, List.isEmpty_iff.mp hnil, List.append_nil]
    by_cases hparts : parts = []
    · rw [hparts]
      rfl
    · rw [flatMap_join hparts, trim_join_glue hplain hparts]
  · rename_i hne
    rw [if_neg hne, flatMap_append, trim_join hplain]

theorem splitNorm_append {word : Name} (h : backslash ∉ word) (part rest : Name) :
    splitNorm part (word ++ rest) = splitNorm (part ++ word) rest := by
  induction word generalizing part with
  | nil => rw [List.append_nil, List.nil_append]
  | cons c word ih =>
      have hc : (c == backslash) = false := by
        rw [beq_eq_false_iff_ne]
        rintro rfl
        exact h List.mem_cons_self
      rw [List.cons_append, splitNorm, hc, if_neg Bool.false_ne_true,
        ih fun hmem => h (List.mem_cons_of_mem _ hmem), List.append_assoc]
      rfl

theorem splitNorm_word {word : Name} (h : backslash ∉ word) (hne : word ≠ []) :
    splitNorm [] word = [word] := by
  have hsplit := splitNorm_append h [] []
  rw [List.append_nil, List.nil_append] at hsplit
  rw [hsplit, splitNorm, if_neg (by simpa using hne)]

theorem splitNorm_cons {word : Name} (h : backslash ∉ word) (rest : Name) :
    splitNorm [] (word ++ backslash :: rest) = word :: splitNorm [] rest := by
  rw [splitNorm_append h, List.nil_append, splitNorm, if_pos (beq_self_eq_true _)]

theorem splitNorm_join (h : Plain backslash names) : splitNorm [] (joinNames names) = names := by
  induction names with
  | nil => rfl
  | cons word names ih =>
      obtain ⟨hne, hno⟩ := h word List.mem_cons_self
      cases names with
      | nil => exact splitNorm_word hno hne
      | cons next names =>
          change splitNorm [] (word ++ backslash :: joinNames (next :: names)) = _
          rw [splitNorm_cons hno, ih fun x hx => h x (List.mem_cons_of_mem _ hx)]

theorem splitNorm_normalizePath (path : Name) :
    splitNorm [] (normalizePath path) = pathParts path := by
  rw [normalizePath_eq, splitNorm_join (plain_of_names (pathParts_plain path))]

theorem joinNames_injective {names' : List Name} (h : Plain backslash names)
    (h' : Plain backslash names') (heq : joinNames names = joinNames names') : names = names' := by
  rw [← splitNorm_join h, heq, splitNorm_join h']

theorem normalizePath_join (h : ∀ name ∈ names, PlainName name) :
    normalizePath (joinNames names) = joinNames names := by
  rw [normalizePath_eq, pathParts_join h]

end Linux2Win.PathNames
