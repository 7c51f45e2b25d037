import Linux2Win.Programs

namespace Linux2Win.Transducers

variable {ε σ κ α : Type} {m : Type → Type} [Monad m]

def serveAll (serve : κ → σ → m (α × σ)) : List κ → σ → m (List α)
  | [], _ => return []
  | request :: requests, s => do
      let (answer, s) ← serve request s
      let later ← serveAll serve requests s
      return answer :: later

variable {serve : κ → σ → ExceptT ε Id (α × σ)} {requests : List κ} {request : κ} {s : σ}
  {answers : List α}

theorem serveAll_cons (h : serveAll serve (request :: requests) s = pure answers) :
    ∃ answer s' later, serve request s = pure (answer, s') ∧
      serveAll serve requests s' = pure later ∧ answers = answer :: later := by
  rw [serveAll] at h
  obtain ⟨⟨answer, s'⟩, hserve, h⟩ := Programs.bind_eq_pure.mp h
  obtain ⟨later, hlater, h⟩ := Programs.bind_eq_pure.mp h
  exact ⟨answer, s', later, hserve, hlater, (Programs.pure_injective h).symm⟩

theorem answer_at {P : σ → Prop} (h : serveAll serve requests s = pure answers) (hs : P s) {n : Nat}
    (hn : requests[n]? = some request)
    (hkeep : ∀ c < n, ∀ q, requests[c]? = some q → ∀ s s' answer, P s →
      serve q s = pure (answer, s') → P s') :
    ∃ s answer s', P s ∧ serve request s = pure (answer, s') ∧ answers[n]? = some answer := by
  induction requests generalizing s answers n with
  | nil => cases hn
  | cons q requests ih =>
      obtain ⟨answer, s', later, hserve, hlater, rfl⟩ := serveAll_cons h
      cases n with
      | zero =>
          cases hn
          exact ⟨s, answer, s', hs, hserve, rfl⟩
      | succ n =>
          refine ih hlater (hkeep 0 n.succ_pos q rfl s s' answer hs hserve) hn ?_
          exact fun c hc q hq => hkeep (c + 1) (Nat.succ_lt_succ hc) q hq

/-- The same for a property that one request establishes. -/
theorem answer_after {P : σ → Prop} (h : serveAll serve requests s = pure answers) {n n' : Nat}
    {request' : κ} {answer : α} (hn : requests[n]? = some request)
    (hanswer : answers[n]? = some answer) (hlt : n < n') (hn' : requests[n']? = some request')
    (hstart : ∀ s s', serve request s = pure (answer, s') → P s')
    (hkeep : ∀ c, n < c → c < n' → ∀ q, requests[c]? = some q → ∀ s s' answer, P s →
      serve q s = pure (answer, s') → P s') :
    ∃ s answer s', P s ∧ serve request' s = pure (answer, s') ∧ answers[n']? = some answer := by
  induction requests generalizing s answers n n' with
  | nil => cases hn
  | cons q requests ih =>
      obtain ⟨answer', s', later, hserve, hlater, rfl⟩ := serveAll_cons h
      obtain ⟨n', rfl⟩ := Nat.exists_eq_succ_of_ne_zero (Nat.ne_zero_of_lt hlt)
      cases n with
      | zero =>
          cases hn
          cases hanswer
          refine answer_at hlater (hstart s s' hserve) hn' ?_
          exact fun c hc q hq => hkeep (c + 1) c.succ_pos (Nat.succ_lt_succ hc) q hq
      | succ n =>
          refine ih hlater hn hanswer (Nat.lt_of_succ_lt_succ hlt) hn' ?_
          exact fun c hc hc' q hq => hkeep (c + 1) (Nat.succ_lt_succ hc) (Nat.succ_lt_succ hc') q hq

theorem served_zip (h : serveAll serve requests s = pure answers) :
    (∀ p ∈ requests.zip answers, ∃ s s', serve p.1 s = pure (p.2, s')) ∧
      ∀ request ∈ requests, ∃ answer, (request, answer) ∈ requests.zip answers := by
  induction requests generalizing s answers with
  | nil => exact ⟨fun _ h => by simp at h, fun _ h => by cases h⟩
  | cons q requests ih =>
      obtain ⟨answer, s', later, hserve, hlater, rfl⟩ := serveAll_cons h
      obtain ⟨hserved, hanswered⟩ := ih hlater
      rw [List.zip_cons_cons]
      constructor
      · intro p hp
        rcases List.mem_cons.mp hp with rfl | hp
        · exact ⟨s, s', hserve⟩
        · exact hserved p hp
      · intro request hrequest
        rcases List.mem_cons.mp hrequest with rfl | hrequest
        · exact ⟨answer, List.mem_cons_self⟩
        · obtain ⟨answer', hmem⟩ := hanswered request hrequest
          exact ⟨answer', List.mem_cons_of_mem _ hmem⟩

inductive Served (serve : κ → σ → ExceptT ε Id (α × σ)) : σ → List (κ × α) → σ → Prop
  | nil (s : σ) : Served serve s [] s
  | cons {s s' s'' : σ} {request : κ} {answer : α} {trace : List (κ × α)}
      (first : serve request s = pure (answer, s')) (later : Served serve s' trace s'') :
      Served serve s ((request, answer) :: trace) s''

theorem served_trace (h : serveAll serve requests s = pure answers) :
    ∃ s', Served serve s (requests.zip answers) s' := by
  induction requests generalizing s answers with
  | nil => exact ⟨s, .nil s⟩
  | cons q requests ih =>
      obtain ⟨answer, s', later, hserve, hlater, rfl⟩ := serveAll_cons h
      obtain ⟨s'', hs''⟩ := ih hlater
      exact ⟨s'', .cons hserve hs''⟩

theorem Served.append_inv {trace trace' : List (κ × α)} {s'' : σ}
    (h : Served serve s (trace ++ trace') s'') :
    ∃ s', Served serve s trace s' ∧ Served serve s' trace' s'' := by
  induction trace generalizing s with
  | nil => exact ⟨s, .nil s, h⟩
  | cons p trace ih =>
      cases h with
      | cons first later =>
          obtain ⟨s', hs', hs''⟩ := ih later
          exact ⟨s', .cons first hs', hs''⟩

end Linux2Win.Transducers
