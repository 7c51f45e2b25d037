import Linux2Win.NodeTree

namespace Linux2Win.NodeWalk

open Bytes Directory Vfs Caches NodeTree

section Walk

variable (g : FsReader Id)

def walkInfo : List Name → NodeInfo → Option NodeInfo
  | [], info => some info
  | part :: parts, info =>
      if info.isDirectory then
        match (kids g info).find? fun k => stricmp k.name part with
        | none => none
        | some k => walkInfo parts k
      else none

inductive Visit (t : VfsTree) (dir : Nat) (n : VfsNode) : VfsTree → List Nat → Prop
  | loaded (h : n.childrenLoaded = true) : Visit t dir n t n.children
  | unlisted (h : listing g n.info = none) : Visit t dir n t []
  | loads (un : n.childrenLoaded = false) (h : (listing g n.info).isSome = true) :
      Visit t dir n (loadDir g t dir n.info) (List.range' t.nodes.length (kids g n.info).length)

variable {g} {t t' t'' : VfsTree} {dir : Nat} {n : VfsNode} {cs : List Nat}

theorem walkInfo_cons_iff {part : Name} {parts : List Name} {info w : NodeInfo} :
    walkInfo g (part :: parts) info = some w ↔ info.isDirectory = true ∧
      ∃ k, (kids g info).find? (fun k => stricmp k.name part) = some k ∧ walkInfo g parts k = some w := by
  rw [walkInfo, Option.ite_none_right_eq_some]
  apply and_congr_right
  intro _
  cases (kids g info).find? fun k => stricmp k.name part with
  | none => simp
  | some k => simp

theorem kids_of_unlisted {info : NodeInfo} (h : listing g info = none) : kids g info = [] := by
  rw [kids, h]
  rfl

theorem visit (hn : t.nodes[dir]? = some n) :
    ∃ t' cs, (ensureChildrenLoaded g dir t).run.2 = t' ∧ Visit g t dir n t' cs := by
  cases hl : n.childrenLoaded with
  | true => exact ⟨t, _, ensureChildrenLoaded_same hn (Or.inl hl), .loaded hl⟩
  | false =>
      cases hlist : listing g n.info with
      | none => exact ⟨t, _, ensureChildrenLoaded_same hn (Or.inr hlist), .unlisted hlist⟩
      | some entries =>
          have hsome : (listing g n.info).isSome = true := by rw [hlist]; rfl
          exact ⟨_, _, congrArg (fun x => x.run.2) (ensureChildrenLoaded_load hn hl hsome),
            .loads hl hsome⟩

namespace Visit

theorem inv (hv : Visit g t dir n t' cs) (h : Inv g t) (hn : t.nodes[dir]? = some n) : Inv g t' := by
  cases hv with
  | loaded => exact h
  | unlisted => exact h
  | loads un => exact h.loadDir hn un

theorem mono (hv : Visit g t dir n t' cs) (hn : t.nodes[dir]? = some n) : Extends t t' := by
  cases hv with
  | loaded => exact .refl t
  | unlisted => exact .refl t
  | loads un => exact loadDir_extends hn un

theorem infos (hv : Visit g t dir n t' cs) (h : Inv g t) (hn : t.nodes[dir]? = some n) :
    cs.map (infoAt t') = (kids g n.info).map some := by
  cases hv with
  | loaded hl => exact h.loaded dir n hn hl
  | unlisted hlist => rw [kids_of_unlisted hlist]; rfl
  | loads => exact loadDir_children

theorem childNodes (hv : Visit g t dir n t' cs) (h : Inv g t) (hn : t.nodes[dir]? = some n) :
    t'.childNodes dir = cs.zip (kids g n.info) := by
  have hinv := hv.inv h hn
  cases hv with
  | loaded hl => exact (h.childNodes hn hl).1
  | loads un => exact (hinv.childNodes (loadDir_node (List.getElem?_eq_some_iff.mp hn).1) rfl).1
  | unlisted hlist =>
      have hnil : n.children = [] := by
        cases hl : n.childrenLoaded with
        | false => exact h.unloaded dir n hn hl
        | true =>
            have hmap := h.loaded dir n hn hl
            rw [kids_of_unlisted hlist] at hmap
            exact List.map_eq_nil_iff.mp hmap
      rw [VfsTree.childNodes, hn, List.zip_nil_left]
      dsimp only
      rw [hnil]
      rfl

theorem again (hv : Visit g t dir n t' cs) (hn : t.nodes[dir]? = some n) (hext : Extends t' t'') :
    ∃ n', t''.nodes[dir]? = some n' ∧ n'.info = n.info ∧ Visit g t'' dir n' t'' cs ∧
      (ensureChildrenLoaded g dir t'').run.2 = t'' := by
  cases hv with
  | loaded hl =>
      obtain ⟨n', hn', hinfo, hsame⟩ := hext.node dir n hn
      obtain rfl := hsame hl
      exact ⟨n', hn', hinfo, .loaded hl, ensureChildrenLoaded_same hn' (Or.inl hl)⟩
  | unlisted hlist =>
      obtain ⟨n', hn', hinfo, _⟩ := hext.node dir n hn
      have hlist' : listing g n'.info = none := by rw [hinfo, hlist]
      exact ⟨n', hn', hinfo, .unlisted hlist', ensureChildrenLoaded_same hn' (Or.inr hlist')⟩
  | loads =>
      obtain ⟨n', hn', hinfo, hsame⟩ :=
        hext.node dir _ (loadDir_node (List.getElem?_eq_some_iff.mp hn).1)
      obtain rfl := hsame rfl
      exact ⟨_, hn', rfl, .loaded rfl, ensureChildrenLoaded_same hn' (Or.inl rfl)⟩

end Visit

theorem walk_file (hn : t.nodes[dir]? = some n) (hdir : n.info.isDirectory = false) (part : Name)
    (parts : List Name) : walk g (part :: parts) dir t = pure (none, t) := by
  rw [walk, hn]
  dsimp only
  rw [if_pos (by simp [hdir])]

theorem walk_dir (hn : t.nodes[dir]? = some n) (hdir : n.info.isDirectory = true)
    (hensure : (ensureChildrenLoaded g dir t).run.2 = t') (part : Name) (parts : List Name) :
    walk g (part :: parts) dir t =
      match (t'.childNodes dir).find? fun c => stricmp c.2.name part with
      | none => pure (none, t')
      | some next => walk g parts next.1 t' := by
  subst hensure
  rw [walk, hn]
  dsimp only
  rw [if_neg (by simp [hdir])]
  rfl

theorem walk_visited (h : Inv g t) (hn : t.nodes[dir]? = some n) (hdir : n.info.isDirectory = true)
    (hv : Visit g t dir n t' cs) (hensure : (ensureChildrenLoaded g dir t).run.2 = t') (part : Name)
    (parts : List Name) :
    ((kids g n.info).find? (fun k => stricmp k.name part) = none ∧
        walk g (part :: parts) dir t = pure (none, t')) ∨
      ∃ j k c, IsFirst (fun k : NodeInfo => stricmp k.name part) (kids g n.info) j ∧
        (kids g n.info)[j]? = some k ∧ cs[j]? = some c ∧
        (kids g n.info).find? (fun k => stricmp k.name part) = some k ∧
        walk g (part :: parts) dir t = walk g parts c t' := by
  have hlen : cs.length = (kids g n.info).length := by
    simpa using congrArg List.length (hv.infos h hn)
  rw [walk_dir hn hdir hensure, hv.childNodes h hn]
  rcases find_zip (fun k : NodeInfo => stricmp k.name part) hlen with
    ⟨hnone, hzip⟩ | ⟨j, k, c, hfirst, hk, hc, hfind, hzip⟩
  · exact Or.inl ⟨hnone, by rw [hzip]⟩
  · exact Or.inr ⟨j, k, c, hfirst, hk, hc, hfind, by rw [hzip]⟩

theorem walk_cases (h : Inv g t) (hn : t.nodes[dir]? = some n) (part : Name) (parts : List Name) :
    (n.info.isDirectory = false ∧ walk g (part :: parts) dir t = pure (none, t)) ∨
      n.info.isDirectory = true ∧ ∃ t' cs, Visit g t dir n t' cs ∧
        (((kids g n.info).find? (fun k => stricmp k.name part) = none ∧
            walk g (part :: parts) dir t = pure (none, t')) ∨
          ∃ j k c, IsFirst (fun k : NodeInfo => stricmp k.name part) (kids g n.info) j ∧
            (kids g n.info)[j]? = some k ∧ cs[j]? = some c ∧
            (kids g n.info).find? (fun k => stricmp k.name part) = some k ∧
            walk g (part :: parts) dir t = walk g parts c t') := by
  cases hdir : n.info.isDirectory with
  | false => exact Or.inl ⟨rfl, walk_file hn hdir part parts⟩
  | true =>
      obtain ⟨t', cs, hensure, hv⟩ := visit hn
      exact Or.inr ⟨rfl, t', cs, hv, walk_visited h hn hdir hv hensure part parts⟩

theorem Visit.child {j : Nat} {k : NodeInfo} {c : Nat} (hv : Visit g t dir n t' cs) (h : Inv g t)
    (hn : t.nodes[dir]? = some n) (hk : (kids g n.info)[j]? = some k) (hc : cs[j]? = some c) :
    ∃ m, t'.nodes[c]? = some m ∧ m.info = k := by
  have hmap := congrArg (fun l => l[j]?) (hv.infos h hn)
  simp only [List.getElem?_map, hk, hc, Option.map_some] at hmap
  exact Option.map_eq_some_iff.mp (Option.some.inj hmap)

theorem walk_spec (parts : List Name) (h : Inv g t) (hn : t.nodes[dir]? = some n) :
    ∃ r t', walk g parts dir t = pure (r, t') ∧ Inv g t' ∧ Extends t t' ∧
      r.map (infoAt t') = (walkInfo g parts n.info).map some := by
  induction parts generalizing t dir n with
  | nil =>
      refine ⟨some dir, t, rfl, h, .refl t, ?_⟩
      rw [Option.map_some, infoAt, hn]
      rfl
  | cons part parts ih =>
      rw [walkInfo]
      rcases walk_cases h hn part parts with ⟨hdir, hwalk⟩ | ⟨hdir, t', cs, hv, hcase⟩
      · exact ⟨none, t, hwalk, h, .refl t, by rw [hdir]; rfl⟩
      · rw [if_pos hdir]
        rcases hcase with ⟨hnone, hwalk⟩ | ⟨j, k, c, _, hk, hc, hfind, hwalk⟩
        · exact ⟨none, t', hwalk, hv.inv h hn, hv.mono hn, by rw [hnone]; rfl⟩
        · obtain ⟨m, hm, rfl⟩ := hv.child h hn hk hc
          obtain ⟨r, t'', hrest, hinv, hext, hr⟩ := ih (hv.inv h hn) hm
          exact ⟨r, t'', hwalk.trans hrest, hinv, (hv.mono hn).trans hext, by rw [hfind]; exact hr⟩

theorem walk_again {parts : List Name} {r : Option NodeId} (h : Inv g t)
    (hn : t.nodes[dir]? = some n) (hwalk : walk g parts dir t = pure (r, t')) :
    walk g parts dir t' = pure (r, t') := by
  induction parts generalizing t dir n with
  | nil =>
      cases hwalk
      rfl
  | cons part parts ih =>
      rcases walk_cases h hn part parts with ⟨hdir, hstop⟩ | ⟨hdir, t₁, cs, hv, hcase⟩
      · cases hstop.symm.trans hwalk
        exact hstop
      · have hinv := hv.inv h hn
        rcases hcase with ⟨hnone, hstop⟩ | ⟨j, k, c, hfirst, hk, hc, hfind, hgo⟩
        · cases hstop.symm.trans hwalk
          obtain ⟨n', hn', hinfo, hv', hensure⟩ := hv.again hn (.refl t')
          rcases walk_visited hinv hn' (by rw [hinfo, hdir]) hv' hensure part parts with
            ⟨_, hstop'⟩ | ⟨_, _, _, _, _, _, hfind, _⟩
          · exact hstop'
          · rw [hinfo, hnone] at hfind
            cases hfind
        · obtain ⟨m, hm, _⟩ := hv.child h hn hk hc
          have hrest := hgo.symm.trans hwalk
          obtain ⟨_, _, hrun, hinv', hext, _⟩ := walk_spec parts hinv hm
          cases hrun.symm.trans hrest
          obtain ⟨n', hn', hinfo, hv', hensure⟩ := hv.again hn hext
          rcases walk_visited hinv' hn' (by rw [hinfo, hdir]) hv' hensure part parts with
            ⟨hnone, _⟩ | ⟨j', k', c', hfirst', _, hc', _, hgo'⟩
          · rw [hinfo, hfind] at hnone
            cases hnone
          · rw [hinfo] at hfirst'
            obtain rfl := hfirst.unique hfirst'
            obtain rfl := Option.some.inj (hc.symm.trans hc')
            exact hgo'.trans (ih hinv hm hrest)

end Walk

end Linux2Win.NodeWalk
