import Linux2Win.ListedPaths

namespace Linux2Win.PathKeys

open Bytes Devices Reader Directory Vfs Joins PathNames ListedPaths

structure Normal (norm : Name) : Prop where
  no_slash : slash ∉ norm
  no_leading : ∀ back, norm ≠ backslash :: back
  no_trailing : ∀ front, norm ≠ front ++ [backslash]
  no_empty : ∀ front back, norm ≠ front ++ backslash :: backslash :: back

/-- `norm.find('\\', start)`. -/
def findBackslash (norm : Name) (start : Nat) : Option Nat :=
  ((norm.drop start).findIdx? (· == backslash)).map (start + ·)

theorem le_of_findBackslash {norm : Name} {start finish : Nat}
    (h : findBackslash norm start = some finish) : start ≤ finish := by
  obtain ⟨i, _, rfl⟩ := Option.map_eq_some_iff.mp h
  exact Nat.le_add_right start i

def splitParts (norm : Name) (start : Nat) (parts : List Name) : List Name :=
  if start < norm.length then
    match _hfind : findBackslash norm start with
    | none => parts ++ [norm.drop start]
    | some finish => splitParts norm (finish + 1) (parts ++ [(norm.drop start).take (finish - start)])
  else parts
termination_by norm.length - start
decreasing_by
  have := le_of_findBackslash _hfind
  omega

section Splitting

variable {norm : Name} {start finish : Nat}

theorem drop_of_find (h : findBackslash norm start = some finish) :
    backslash ∉ (norm.drop start).take (finish - start) ∧
      norm.drop start = (norm.drop start).take (finish - start) ++ backslash :: norm.drop (finish + 1) := by
  obtain ⟨i, hi, rfl⟩ := Option.map_eq_some_iff.mp h
  obtain ⟨hlt, hat, hbefore⟩ := List.findIdx?_eq_some_iff_getElem.mp hi
  rw [Nat.add_sub_cancel_left]
  constructor
  · intro hmem
    obtain ⟨j, hj, heq⟩ := List.mem_take_iff_getElem.mp hmem
    exact hbefore j (by omega) (by rw [heq]; exact beq_self_eq_true _)
  · have hsplit := List.take_append_drop i (norm.drop start)
    rw [List.drop_eq_getElem_cons hlt, beq_iff_eq.mp hat, List.drop_drop] at hsplit
    exact hsplit.symm

theorem none_of_find (h : findBackslash norm start = none) : backslash ∉ norm.drop start := by
  rw [findBackslash, Option.map_eq_none_iff, List.findIdx?_eq_none_iff] at h
  intro hmem
  cases h backslash hmem

theorem splitParts_eq (norm : Name) (start : Nat) (parts : List Name) :
    splitParts norm start parts = parts ++ splitNorm [] (norm.drop start) := by
  fun_induction splitParts norm start parts with
  | case1 start parts hlt hnone =>
      have hne : norm.drop start ≠ [] := by
        rw [ne_eq, List.drop_eq_nil_iff]
        omega
      rw [splitNorm_word (none_of_find hnone) hne]
  | case2 start parts hlt finish hfind ih =>
      obtain ⟨hword, hdrop⟩ := drop_of_find hfind
      have hsplit := splitNorm_cons hword (norm.drop (finish + 1))
      rw [← hdrop] at hsplit
      rw [ih, hsplit, List.append_assoc]
      rfl
  | case3 start parts hge =>
      rw [List.drop_eq_nil_of_le (Nat.le_of_not_lt hge)]
      exact (List.append_nil parts).symm

theorem splitParts_zero (norm : Name) : splitParts norm 0 [] = splitNorm [] norm := by
  rw [splitParts_eq, List.drop_zero]
  rfl

end Splitting

section Keys

variable {norm : Name}

theorem normal_join {words : List Name} (h : ∀ word ∈ words, PlainName word) :
    Normal (joinNames words) where
  no_slash hslash := by
    have hpos : 0 < (joinNames words).countP (· == slash) :=
      List.countP_pos_iff.mpr ⟨slash, hslash, beq_self_eq_true slash⟩
    rw [countP_join rfl] at hpos
    obtain ⟨c, hc, heq⟩ := List.countP_pos_iff.mp hpos
    obtain ⟨word, hword, hmem⟩ := List.mem_flatten.mp hc
    rw [beq_iff_eq.mp heq] at hmem
    cases (h word hword).2 slash hmem
  no_leading := join_head (plain_of_names h)
  no_trailing := join_last (plain_of_names h)
  no_empty := join_no_double (plain_of_names h)

theorem fold_self (hslash : slash ∉ norm) (hleading : ∀ back, norm ≠ backslash :: back)
    (hempty : ∀ front back, norm ≠ front ++ backslash :: backslash :: back) :
    norm.foldl normStep [] = norm := by
  induction norm using List.reverseRecOn with
  | nil => rfl
  | append_singleton norm c ih =>
      have hcopied : norm.foldl normStep [] = norm := by
        refine ih (fun hmem => hslash (List.mem_append_left _ hmem)) (fun back heq => ?_)
          (fun front back heq => ?_)
        · exact hleading (back ++ [c]) (by rw [heq]; rfl)
        · exact hempty front (back ++ [c]) (by rw [heq]; simp)
      rw [List.foldl_append, hcopied, List.foldl_cons, List.foldl_nil, normStep]
      split
      · rename_i hc
        -- a separator at this place is a backslash behind a name
        have hback : c = backslash := by
          rw [isSeparator, Bool.or_eq_true, beq_iff_eq, beq_iff_eq] at hc
          refine hc.resolve_left fun heq => hslash ?_
          rw [heq]
          exact List.mem_append_right _ List.mem_cons_self
        subst hback
        apply if_pos
        rcases List.eq_nil_or_concat' norm with rfl | ⟨init, x, rfl⟩
        · exact absurd rfl (hleading [])
        · have hx : x ≠ backslash := by
            rintro rfl
            exact hempty init [] (by simp)
          simp [hx]
      · rfl

theorem normalizePath_normal (path : Name) : Normal (normalizePath path) := by
  rw [normalizePath_eq]
  exact normal_join (pathParts_plain path)

theorem normalizePath_self_iff : normalizePath norm = norm ↔ Normal norm := by
  constructor
  · intro hself
    rw [← hself]
    exact normalizePath_normal norm
  · rintro ⟨hslash, hleading, htrailing, hempty⟩
    change trim backslash (norm.foldl normStep []) = norm
    rw [fold_self hslash hleading hempty, trim, dropWhile_self hleading, rdropWhile_self htrailing]

theorem normalizePath_congr {path path' : Name} :
    normalizePath path = normalizePath path' ↔ components path = components path' := by
  rw [← pathParts_eq, ← pathParts_eq]
  constructor
  · intro h
    rw [← splitNorm_normalizePath path, h, splitNorm_normalizePath path']
  · intro h
    rw [normalizePath_eq, h, ← normalizePath_eq]

theorem findNode_congr {m : Type → Type} [Monad m] (fs : FsReader m) {path path' : Name}
    (h : components path = components path') (t : VfsTree) :
    findNode fs path t = findNode fs path' t := by
  rw [findNode, findNode, normalizePath_congr.mpr h]

/-- The lone dot is the one spelling that `lookup_path` does not split. -/
theorem lookupPath_congr {dev : Device Id} {rd : Ext4Reader} {fuel : Nat} {path path' : Name}
    (h : components path = components path') (hdot : path ≠ [dot]) (hdot' : path' ≠ [dot]) :
    lookupPath dev rd fuel path = lookupPath dev rd fuel path' := by
  cases hm : rd.mounted with
  | false => rw [lookupPath, lookupPath, hm]; rfl
  | true =>
      rw [lookupPath_parts hm hdot, lookupPath_parts hm hdot', pathParts_eq, pathParts_eq, h]

/-- The tokenizers of the two resolvers agree on every path, and the key of a path in the
cache stands for its components and nothing else. -/
theorem tokenizers_agree (path : Name) :
    normalizePath (normalizePath path) = normalizePath path ∧
    Normal (normalizePath path) ∧
    [] ∉ splitParts (normalizePath path) 0 [] ∧
    splitParts (normalizePath path) 0 [] = pathParts path ∧
    pathParts path = components path ∧
    ∀ path', normalizePath path = normalizePath path' ↔ components path = components path' := by
  have hnormal := normalizePath_normal path
  have hparts : splitParts (normalizePath path) 0 [] = pathParts path := by
    rw [splitParts_zero, splitNorm_normalizePath]
  refine ⟨normalizePath_self_iff.mpr hnormal, hnormal, ?_, hparts, pathParts_eq path,
    fun _ => normalizePath_congr⟩
  rw [hparts]
  exact fun hempty => (pathParts_plain path [] hempty).1 rfl

end Keys

end Linux2Win.PathKeys
