import Mathlib.Data.List.Basic
import Mathlib.Logic.Relation

namespace Linux2Win.Passes

variable {σ ι : Type}

/-- A state that callers share. Each of them makes a pass over operations, and keeps
those that are still to come. -/
structure System (σ ι : Type) where
  state : σ
  callers : List (List ι)

section Steps

variable (run : ι → σ → σ) (IsPass : List ι → Prop)

inductive Step : System σ ι → System σ ι → Prop
  | turn (s : σ) (before : List (List ι)) (op : ι) (rest : List ι) (after : List (List ι)) :
      Step ⟨s, before ++ (op :: rest) :: after⟩ ⟨run op s, before ++ rest :: after⟩
  | enter (s : σ) (callers : List (List ι)) (pass : List ι) (h : IsPass pass) :
      Step ⟨s, callers⟩ ⟨s, pass :: callers⟩

def Reachable : System σ ι → System σ ι → Prop := Relation.ReflTransGen (Step run IsPass)

variable {run IsPass} in
theorem reachable_alone (s : σ) (pass : List ι) :
    Reachable run IsPass ⟨s, [pass]⟩ ⟨pass.foldl (fun s op => run op s) s, [[]]⟩ := by
  induction pass generalizing s with
  | nil => exact .refl
  | cons op pass ih => exact .head (.turn s [] op pass []) (ih (run op s))

end Steps

section Rules

variable {run : ι → σ → σ} {IsPass : List ι → Prop} (P : σ → Prop) (Done : ι → σ → Prop)

structure Kept (IsPass : List ι → Prop) (P : σ → Prop) (Done : ι → σ → Prop) (s : System σ ι) :
    Prop where
  state : P s.state
  callers : ∀ rest ∈ s.callers, ∃ earlier, IsPass (earlier ++ rest) ∧
    ∀ op ∈ earlier, Done op s.state

variable {P Done}

theorem Kept.start {s : σ} {callers : List (List ι)} (hs : P s) (hcallers : ∀ p ∈ callers, IsPass p) :
    Kept IsPass P Done ⟨s, callers⟩ :=
  ⟨hs, fun p hp => ⟨[], hcallers p hp, nofun⟩⟩

variable (hrun : ∀ pass, IsPass pass → ∀ op ∈ pass, ∀ s, P s → P (run op s))
  (hdone : ∀ op s, Done op (run op s)) (hstay : ∀ op op' s, Done op s → Done op (run op' s))
include hrun hdone hstay

theorem Kept.step {s s' : System σ ι} (h : Kept IsPass P Done s) (hstep : Step run IsPass s s') :
    Kept IsPass P Done s' := by
  cases hstep with
  | turn s before op rest after =>
      have hmem : op :: rest ∈ before ++ (op :: rest) :: after :=
        List.mem_append_right _ List.mem_cons_self
      obtain ⟨earlier, hpass, hearlier⟩ := h.callers _ hmem
      have hop : op ∈ earlier ++ op :: rest := List.mem_append_right _ List.mem_cons_self
      refine ⟨hrun _ hpass op hop s h.state, fun p hp => ?_⟩
      rcases List.mem_append.mp hp with hp | hp
      · obtain ⟨e, he, hall⟩ := h.callers p (List.mem_append_left _ hp)
        exact ⟨e, he, fun o ho => hstay o op s (hall o ho)⟩
      · rcases List.mem_cons.mp hp with rfl | hp
        · refine ⟨earlier ++ [op], by rwa [List.append_assoc], fun o ho => ?_⟩
          rcases List.mem_append.mp ho with ho | ho
          · exact hstay o op s (hearlier o ho)
          · obtain rfl := List.mem_singleton.mp ho
            exact hdone o s
        · obtain ⟨e, he, hall⟩ :=
            h.callers p (List.mem_append_right _ (List.mem_cons_of_mem _ hp))
          exact ⟨e, he, fun o ho => hstay o op s (hall o ho)⟩
  | enter s callers pass hpass =>
      refine ⟨h.state, fun p hp => ?_⟩
      rcases List.mem_cons.mp hp with rfl | hp
      · exact ⟨[], hpass, nofun⟩
      · exact h.callers p hp

theorem Kept.reachable {s s' : System σ ι} (h : Kept IsPass P Done s)
    (hreach : Reachable run IsPass s s') : Kept IsPass P Done s' := by
  induction hreach with
  | refl => exact h
  | tail _ hstep ih => exact ih.step hrun hdone hstay hstep

end Rules

theorem Kept.finished {IsPass : List ι → Prop} {P : σ → Prop} {Done : ι → σ → Prop} {s : System σ ι}
    (h : Kept IsPass P Done s) (hend : [] ∈ s.callers) :
    ∃ pass, IsPass pass ∧ ∀ op ∈ pass, Done op s.state := by
  obtain ⟨pass, hpass, hall⟩ := h.callers [] hend
  exact ⟨pass, by rwa [List.append_nil] at hpass, hall⟩

end Linux2Win.Passes
