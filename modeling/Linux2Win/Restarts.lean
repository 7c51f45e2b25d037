import Linux2Win.EnumSessions

namespace Linux2Win.Restarts

open Guids Directory Vfs DirEnum EnumSessions

def Gets (id : Guid) (e : Event) : Prop :=
  e.id = id → ∃ self restart searchExpression buffer,
    e = .get self id restart searchExpression buffer

def passedTo (id : Guid) : Event → Option WString
  | .get true id' _ searchExpression _ =>
      if id' = id then passedExpression searchExpression else none
  | .get false _ _ _ _ | .start _ _ | .finish _ => none

def lastPassed (id : Guid) (history : List Event) : WString :=
  history.foldl (fun expression e => (passedTo id e).getD expression) []

def answers (id : Guid) (outcomes : List Outcome) : List Outcome :=
  outcomes.filter fun o => o.id = id

variable (fileNameMatch : Option (WString → WString → Bool))

/-- A restarting call and all further calls with its expression are answered as if the
session had been started anew. -/
def LikeFresh (id : Guid) (children : List NodeInfo) (searchExpression : Option WString)
    (sessions : Sessions) : Prop :=
  ∀ buffer rest, (∀ e ∈ rest, Calls id searchExpression e) →
    answers id (run fileNameMatch sessions (.get true id true searchExpression buffer :: rest)) =
      answers id (run fileNameMatch (step fileNameMatch sessions (.start (.ok children) id)).2
        (.get true id false searchExpression buffer :: rest))

section Sessions

variable {fileNameMatch} {id : Guid} {children : List NodeInfo} {searchExpression : Option WString}

theorem fillEntries_congr {expression expression' : WString} (buffer : EntryBuffer)
    {entries : List NodeInfo} (index : Nat) (added : List NodeInfo)
    (h : ∀ entry ∈ entries, matchesExpression fileNameMatch expression entry =
      matchesExpression fileNameMatch expression' entry) :
    fillEntries fileNameMatch expression buffer entries index added =
      fillEntries fileNameMatch expression' buffer entries index added := by
  induction entries generalizing index added with
  | nil => rfl
  | cons entry entries ih =>
      obtain ⟨hentry, hentries⟩ := List.forall_mem_cons.mp h
      simp only [fillEntries, hentry, ih _ _ hentries]

variable (fileNameMatch searchExpression) in
structure Alike (session session' : DirEnumSession) : Prop where
  entries : session.matchingEntries = session'.matchingEntries
  index : session.currentIndex = session'.currentIndex
  matching : ∀ entry ∈ session.matchingEntries,
    matchesExpression fileNameMatch
        ((passedExpression searchExpression).getD session.searchExpression) entry =
      matchesExpression fileNameMatch
        ((passedExpression searchExpression).getD session'.searchExpression) entry

theorem getD_passed (expression : WString) :
    (passedExpression searchExpression).getD ((passedExpression searchExpression).getD expression) =
      (passedExpression searchExpression).getD expression := by
  cases passedExpression searchExpression <;> rfl

variable (fileNameMatch) in
def filled (restart : Bool) (searchExpression : Option WString) (buffer : EntryBuffer)
    (session : DirEnumSession) : HResult × Nat × List NodeInfo :=
  fillEntries fileNameMatch ((passedExpression searchExpression).getD session.searchExpression) buffer
    (session.matchingEntries.drop (startIndex restart session.currentIndex))
    (startIndex restart session.currentIndex) []

variable (fileNameMatch searchExpression) in
theorem callSession_eq (restart : Bool) (buffer : EntryBuffer) (session : DirEnumSession) :
    callSession fileNameMatch restart searchExpression buffer session =
      ((filled fileNameMatch restart searchExpression buffer session).1,
        (filled fileNameMatch restart searchExpression buffer session).2.2,
        ⟨(passedExpression searchExpression).getD session.searchExpression, session.matchingEntries,
          (filled fileNameMatch restart searchExpression buffer session).2.1⟩) := rfl

theorem callSession_alike {session session' : DirEnumSession}
    (h : Alike fileNameMatch searchExpression session session') (restart : Bool)
    (buffer : EntryBuffer) : ∃ hr added s s',
      callSession fileNameMatch restart searchExpression buffer session = (hr, added, s) ∧
      callSession fileNameMatch restart searchExpression buffer session' = (hr, added, s') ∧
      Alike fileNameMatch searchExpression s s' := by
  have hfill : filled fileNameMatch restart searchExpression buffer session =
      filled fileNameMatch restart searchExpression buffer session' := by
    rw [filled, filled, ← h.entries, ← h.index]
    exact fillEntries_congr buffer _ [] fun entry hentry =>
      h.matching entry (List.mem_of_mem_drop hentry)
  have hcall := callSession_eq fileNameMatch searchExpression restart buffer session'
  rw [← hfill] at hcall
  refine ⟨_, _, _, _, callSession_eq _ _ restart buffer session, hcall, h.entries, rfl,
    fun entry hentry => ?_⟩
  rw [getD_passed, getD_passed]
  exact h.matching entry hentry

variable (fileNameMatch id searchExpression) in
def AlikeAt (sessions sessions' : Sessions) : Prop :=
  ∃ session session', sessions.lookup id = some session ∧ sessions'.lookup id = some session' ∧
    Alike fileNameMatch searchExpression session session'

theorem step_get_true (restart : Bool) (buffer : EntryBuffer) {sessions : Sessions}
    {session : DirEnumSession} (h : sessions.lookup id = some session) :
    step fileNameMatch sessions (.get true id restart searchExpression buffer) =
      (⟨id, (callSession fileNameMatch restart searchExpression buffer session).1,
          (callSession fileNameMatch restart searchExpression buffer session).2.1⟩,
        sessions.insert id (callSession fileNameMatch restart searchExpression buffer session).2.2) := by
  simp only [step, getDirEnumCallback, Bool.not_true, Bool.false_eq_true, if_false, h]

theorem step_alike {sessions sessions' : Sessions}
    (h : AlikeAt fileNameMatch id searchExpression sessions sessions') {e : Event}
    (hcall : Calls id searchExpression e) :
    (e.id = id → (step fileNameMatch sessions e).1 = (step fileNameMatch sessions' e).1) ∧
      AlikeAt fileNameMatch id searchExpression (step fileNameMatch sessions e).2
        (step fileNameMatch sessions' e).2 := by
  obtain ⟨session, session', hs, hs', halike⟩ := h
  by_cases hid : e.id = id
  · obtain ⟨self, restart, buffer, rfl⟩ := hcall hid
    cases self with
    | false => exact ⟨fun _ => rfl, session, session', hs, hs', halike⟩
    | true =>
        obtain ⟨hr, added, s, s', hcall, hcall', halike'⟩ := callSession_alike halike restart buffer
        rw [step_get_true restart buffer hs, step_get_true restart buffer hs', hcall, hcall']
        exact ⟨fun _ => rfl, s, s', AList.lookup_insert _, AList.lookup_insert _, halike'⟩
  · refine ⟨fun he => absurd he hid, session, session', ?_, ?_, halike⟩
    · rw [(step_other fileNameMatch hid sessions).1, hs]
    · rw [(step_other fileNameMatch hid sessions').1, hs']

theorem answers_cons (o : Outcome) (outcomes : List Outcome) :
    answers id (o :: outcomes) = if o.id = id then o :: answers id outcomes else answers id outcomes := by
  rw [answers, answers, List.filter_cons]
  simp only [decide_eq_true_eq]

theorem run_alike {sessions sessions' : Sessions}
    (h : AlikeAt fileNameMatch id searchExpression sessions sessions') {events : List Event}
    (hcalls : ∀ e ∈ events, Calls id searchExpression e) :
    answers id (run fileNameMatch sessions events) =
      answers id (run fileNameMatch sessions' events) := by
  induction events generalizing sessions sessions' with
  | nil => rfl
  | cons e events ih =>
      obtain ⟨hcall, hcalls⟩ := List.forall_mem_cons.mp hcalls
      obtain ⟨hsame, halike⟩ := step_alike h hcall
      have hrest := ih halike hcalls
      rw [run, run, answers_cons, answers_cons, hrest]
      by_cases hid : e.id = id
      · rw [hsame hid]
      · rw [if_neg (step_other fileNameMatch hid sessions).2,
          if_neg (step_other fileNameMatch hid sessions').2]

theorem answers_restart {sessions sessions' : Sessions} {session session' : DirEnumSession}
    (h : sessions.lookup id = some session) (h' : sessions'.lookup id = some session')
    (halike : Alike fileNameMatch searchExpression { session with currentIndex := 0 } session')
    (buffer : EntryBuffer) {rest : List Event} (hrest : ∀ e ∈ rest, Calls id searchExpression e) :
    answers id (run fileNameMatch sessions (.get true id true searchExpression buffer :: rest)) =
      answers id (run fileNameMatch sessions' (.get true id false searchExpression buffer :: rest)) := by
  obtain ⟨hr, added, s, s', hcall, hcall', halike'⟩ := callSession_alike halike false buffer
  have hrestart : callSession fileNameMatch true searchExpression buffer session = (hr, added, s) := hcall
  rw [run, run, step_get_true true buffer h, step_get_true false buffer h', hrestart, hcall',
    answers_cons, answers_cons]
  rw [run_alike ⟨s, s', AList.lookup_insert _, AList.lookup_insert _, halike'⟩ hrest]

theorem passedTo_other {e : Event} (h : e.id ≠ id) : passedTo id e = none := by
  match e with
  | .get true id' _ _ _ => exact if_neg h
  | .get false _ _ _ _ | .start _ _ | .finish _ => rfl

variable (fileNameMatch) in
theorem step_keeps {sessions : Sessions} {session : DirEnumSession}
    (h : sessions.lookup id = some session) {e : Event} (hget : Gets id e) :
    ∃ session', (step fileNameMatch sessions e).2.lookup id = some session' ∧
      session'.matchingEntries = session.matchingEntries ∧
      session'.searchExpression = (passedTo id e).getD session.searchExpression := by
  by_cases hid : e.id = id
  · obtain ⟨self, restart, searchExpression, buffer, rfl⟩ := hget hid
    cases self with
    | false => exact ⟨session, h, rfl, rfl⟩
    | true =>
        rw [step_get_true restart buffer h, callSession_eq]
        refine ⟨_, AList.lookup_insert _, rfl, ?_⟩
        rw [passedTo, if_pos rfl]
  · refine ⟨session, ?_, rfl, ?_⟩
    · rw [(step_other fileNameMatch hid sessions).1, h]
    · rw [passedTo_other hid, Option.getD_none]

variable (fileNameMatch) in
theorem after_history {sessions : Sessions} {session : DirEnumSession} {history : List Event}
    (h : sessions.lookup id = some session) (hhistory : ∀ e ∈ history, Gets id e) :
    ∃ session', (after fileNameMatch sessions history).lookup id = some session' ∧
      session'.matchingEntries = session.matchingEntries ∧
      session'.searchExpression = history.foldl (fun expression e => (passedTo id e).getD expression)
        session.searchExpression := by
  induction history generalizing sessions session with
  | nil => exact ⟨session, h, rfl, rfl⟩
  | cons e history ih =>
      obtain ⟨hget, hgets⟩ := List.forall_mem_cons.mp hhistory
      obtain ⟨session', hlookup, hentries, hexpression⟩ := step_keeps fileNameMatch h hget
      obtain ⟨session'', hlookup', hentries', hexpression'⟩ := ih hlookup hgets
      refine ⟨session'', hlookup', hentries'.trans hentries, ?_⟩
      rw [hexpression', hexpression, List.foldl_cons]

theorem fillEntries_roomy (expression : WString) (entries : List NodeInfo) (index : Nat)
    (added : List NodeInfo) :
    (fillEntries fileNameMatch expression roomy entries index added).2.2 =
      added ++ entries.filter (matchesExpression fileNameMatch expression) := by
  induction entries generalizing index added with
  | nil => exact (List.append_nil added).symm
  | cons entry entries ih =>
      rw [fillEntries]
      by_cases hm : matchesExpression fileNameMatch expression entry = true
      · rw [if_neg (by simp [hm]), List.filter_cons_of_pos hm]
        exact (ih (index + 1) (added ++ [entry])).trans (List.append_assoc _ _ _)
      · rw [if_pos (by simpa using hm), List.filter_cons_of_neg hm]
        exact ih (index + 1) added

theorem delivered_roomy (restart : Bool) {sessions : Sessions} {session : DirEnumSession}
    (h : sessions.lookup id = some session) :
    delivered id (run fileNameMatch sessions [.get true id restart searchExpression roomy]) =
      (session.matchingEntries.drop (startIndex restart session.currentIndex)).filter
        (matchesExpression fileNameMatch
          ((passedExpression searchExpression).getD session.searchExpression)) := by
  rw [run, run, step_get_true restart roomy h, callSession_eq, delivered_cons, if_pos rfl, filled,
    fillEntries_roomy]
  exact List.append_nil _

theorem likeFresh_session {sessions : Sessions} {session : DirEnumSession}
    (h : sessions.lookup id = some session) :
    LikeFresh fileNameMatch id session.matchingEntries searchExpression sessions ↔
      passedExpression searchExpression ≠ none ∨ ∀ child ∈ session.matchingEntries,
        matchesExpression fileNameMatch session.searchExpression child = true := by
  have hfresh : (step fileNameMatch sessions (.start (.ok session.matchingEntries) id)).2.lookup id =
      some ⟨[], session.matchingEntries, 0⟩ := AList.lookup_insert _
  constructor
  · intro hlike
    by_cases hpassed : passedExpression searchExpression = none
    · have hsame := congrArg (fun outcomes => outcomes.flatMap Outcome.added)
        (hlike roomy [] (List.forall_mem_nil _))
      change delivered id _ = delivered id _ at hsame
      rw [delivered_roomy true h, delivered_roomy false hfresh, hpassed] at hsame
      have hall : session.matchingEntries.filter (matchesExpression fileNameMatch []) =
          session.matchingEntries := List.filter_eq_self.mpr fun _ _ => rfl
      exact Or.inr (List.filter_eq_self.mp (hsame.trans hall))
    · exact Or.inl hpassed
  · intro hcond buffer rest hrest
    refine answers_restart h hfresh ⟨rfl, rfl, fun child hchild => ?_⟩ buffer hrest
    cases hpassed : passedExpression searchExpression with
    | some expression => rfl
    | none => exact hcond.resolve_left (fun hne => hne hpassed) child hchild

end Sessions

/-- A restarted scan is a fresh one if it passes on an expression of its own, or if
every child matches the last one before it, which stays in force. -/
theorem likeFresh_iff (id : Guid) (sessions : Sessions) (children : List NodeInfo)
    (history : List Event) (hhistory : ∀ e ∈ history, Gets id e) (searchExpression : Option WString) :
    LikeFresh fileNameMatch id children searchExpression
        (after fileNameMatch sessions (.start (.ok children) id :: history)) ↔
      passedExpression searchExpression ≠ none ∨
        ∀ child ∈ children, matchesExpression fileNameMatch (lastPassed id history) child = true := by
  have hstart : (step fileNameMatch sessions (.start (.ok children) id)).2.lookup id =
      some ⟨[], children, 0⟩ := AList.lookup_insert _
  obtain ⟨session, hlookup, rfl, hexpression⟩ := after_history fileNameMatch hstart hhistory
  rw [lastPassed, ← hexpression]
  exact likeFresh_session hlookup

def exactMatch : Option (WString → WString → Bool) := some fun name pattern => name == pattern

def askedForA : List Event := [.get true .zero false (some [0x61]) oneEntry]

theorem likeFresh_iff_asked :
    LikeFresh exactMatch .zero [plainFile [0x61] 12, plainFile [0x62] 13] none
        (after exactMatch ∅
          (.start (.ok [plainFile [0x61] 12, plainFile [0x62] 13]) .zero :: askedForA)) ↔
      passedExpression none ≠ none ∨ ∀ child ∈ [plainFile [0x61] 12, plainFile [0x62] 13],
        matchesExpression exactMatch (lastPassed .zero askedForA) child = true :=
  likeFresh_iff exactMatch .zero ∅ _ askedForA
    (List.forall_mem_singleton.mpr fun _ => ⟨true, false, some [0x61], oneEntry, rfl⟩) none

/-- Restarted without an expression, the session still leaves out `b`. -/
theorem restart_keeps_expression :
    let asked := after exactMatch ∅
      (.start (.ok [plainFile [0x61] 12, plainFile [0x62] 13]) .zero :: askedForA)
    run exactMatch asked [.get true .zero true none roomy] =
        [⟨.zero, sOk, [plainFile [0x61] 12]⟩] ∧
      run exactMatch (step exactMatch asked
          (.start (.ok [plainFile [0x61] 12, plainFile [0x62] 13]) .zero)).2
          [.get true .zero false none roomy] =
        [⟨.zero, sOk, [plainFile [0x61] 12, plainFile [0x62] 13]⟩] ∧
      ¬LikeFresh exactMatch .zero [plainFile [0x61] 12, plainFile [0x62] 13] none asked := by
  intro asked
  have hrestarted : run exactMatch asked [.get true .zero true none roomy] =
      [⟨.zero, sOk, [plainFile [0x61] 12]⟩] := rfl
  refine ⟨hrestarted, rfl, fun h => ?_⟩
  have hsame := h roomy [] (List.forall_mem_nil _)
  rw [hrestarted] at hsame
  cases hsame

end Linux2Win.Restarts
