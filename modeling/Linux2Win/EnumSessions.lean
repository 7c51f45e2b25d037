import Linux2Win.DirEnum

namespace Linux2Win.EnumSessions

open Bytes Guids Directory Vfs DirEnum

/-- A callback on the session map. Each of them holds the session mutex while it
looks at the map, and the start callback has captured the children before. -/
inductive Event
  | start (captured : Except HResult (List NodeInfo)) (id : Guid)
  | get (self : Bool) (id : Guid) (restart : Bool) (searchExpression : Option WString)
      (buffer : EntryBuffer)
  | finish (id : Guid)

def Event.id : Event → Guid
  | .start _ id | .get _ id _ _ _ | .finish id => id

structure Outcome where
  id : Guid
  result : HResult
  added : List NodeInfo

variable (fileNameMatch : Option (WString → WString → Bool))

def step (sessions : Sessions) : Event → Outcome × Sessions
  | .start captured id =>
      let r := startSession captured id sessions
      (⟨id, r.1, []⟩, r.2)
  | .get self id restart searchExpression buffer =>
      let r := getDirEnumCallback fileNameMatch self id restart searchExpression buffer sessions
      (⟨id, r.1, r.2.1⟩, r.2.2)
  | .finish id =>
      let r := endDirEnumCallback id sessions
      (⟨id, r.1, []⟩, r.2)

theorem startDirEnumCallback_step {m : Type → Type} [Monad m] (fs : FsReader m) (self : Bool)
    (filePathName : Option WString) (id : Guid) (t : VfsTree) (sessions : Sessions) :
    startDirEnumCallback fs self filePathName id t sessions =
      captureChildren fs self filePathName t >>= fun r =>
        let s := step fileNameMatch sessions (.start r.1 id)
        pure (s.1.result, r.2, s.2) := rfl

def run : Sessions → List Event → List Outcome
  | _, [] => []
  | sessions, e :: es => (step fileNameMatch sessions e).1 :: run (step fileNameMatch sessions e).2 es

def after (sessions : Sessions) (events : List Event) : Sessions :=
  events.foldl (fun s e => (step fileNameMatch s e).2) sessions

def delivered (id : Guid) (outcomes : List Outcome) : List NodeInfo :=
  (outcomes.filter fun o => o.id = id).flatMap Outcome.added

/-- The buffer has no failure with the code that the callback has for the end of a scan. -/
def Unending (buffer : EntryBuffer) : Prop :=
  ∀ added name info, buffer added name info ≠ errorNoMoreFiles

variable {fileNameMatch}

variable (fileNameMatch) in
theorem fillEntries_spec (expression : WString) (buffer : EntryBuffer) (entries : List NodeInfo)
    (index : Nat) (added : List NodeInfo) {hr : HResult} {index' : Nat} {added' : List NodeInfo}
    (h : fillEntries fileNameMatch expression buffer entries index added = (hr, index', added')) :
    ∃ k ≤ entries.length, index' = index + k ∧
      added' = added ++ (entries.take k).filter (matchesExpression fileNameMatch expression) ∧
      (hr = sOk → added' ≠ []) ∧
      (Unending buffer → hr = errorNoMoreFiles → k = entries.length) := by
  induction entries generalizing index added with
  | nil =>
      cases h
      refine ⟨0, le_rfl, rfl, by simp, fun h => ?_, fun _ _ => rfl⟩
      rintro rfl
      exact absurd h (by decide)
  | cons entry entries ih =>
      rw [fillEntries] at h
      by_cases hm : matchesExpression fileNameMatch expression entry = true
      · simp only [hm, Bool.not_true, Bool.false_eq_true, if_false] at h
        by_cases hfull : buffer added (cStr (widen entry.name)) (basicInfo entry) =
            errorInsufficientBuffer
        · simp only [hfull, beq_self_eq_true, if_true] at h
          cases h
          refine ⟨0, Nat.zero_le _, rfl, by simp, fun h => ?_, fun _ h => ?_⟩
          · rintro rfl
            exact absurd h (by decide)
          · split at h <;> exact absurd h (by decide)
        · simp only [beq_iff_eq, hfull, if_false] at h
          by_cases hfail : failed (buffer added (cStr (widen entry.name)) (basicInfo entry)) = true
          · simp only [hfail, if_true] at h
            cases h
            refine ⟨0, Nat.zero_le _, rfl, by simp, fun h => ?_,
              fun hbuffer h => absurd h (hbuffer _ _ _)⟩
            rw [h] at hfail
            exact absurd hfail (by decide)
          · simp only [hfail, Bool.false_eq_true, if_false] at h
            obtain ⟨k, hk, hi, ha, hs, hn⟩ := ih _ _ h
            refine ⟨k + 1, Nat.succ_le_succ hk, by omega, ?_, hs, fun hbuffer h => by simp [hn hbuffer h]⟩
            simp [ha, hm]
      · simp only [hm, Bool.not_false, if_true] at h
        obtain ⟨k, hk, hi, ha, hs, hn⟩ := ih _ _ h
        refine ⟨k + 1, Nat.succ_le_succ hk, by omega, ?_, hs, fun hbuffer h => by simp [hn hbuffer h]⟩
        simp [ha, hm]

def scanExpression (searchExpression : Option WString) : WString :=
  (passedExpression searchExpression).getD []

def OpenAt (id : Guid) (children : List NodeInfo) (searchExpression : Option WString) (i : Nat)
    (sessions : Sessions) : Prop :=
  ∃ session, sessions.lookup id = some session ∧ session.matchingEntries = children ∧
    session.currentIndex = i ∧ i ≤ children.length ∧
    (session.searchExpression = [] ∨ session.searchExpression = scanExpression searchExpression)

def Calls (id : Guid) (searchExpression : Option WString) (e : Event) : Prop :=
  e.id = id → ∃ self restart buffer, e = .get self id restart searchExpression buffer

def Continues (id : Guid) (e : Event) : Prop :=
  ∀ searchExpression buffer, e ≠ .get true id true searchExpression buffer

theorem enterCall_expression {searchExpression : Option WString} {session : DirEnumSession}
    (restart : Bool) (h : session.searchExpression = [] ∨
      session.searchExpression = scanExpression searchExpression) :
    (enterCall restart searchExpression session).searchExpression =
      scanExpression searchExpression := by
  change (passedExpression searchExpression).getD session.searchExpression = _
  cases hp : passedExpression searchExpression with
  | some w => rw [scanExpression, hp]; rfl
  | none =>
      rw [scanExpression, hp] at h ⊢
      exact h.elim id id

def startIndex (restart : Bool) (i : Nat) : Nat := if restart then 0 else i

theorem startIndex_le (restart : Bool) {i n : Nat} (h : i ≤ n) : startIndex restart i ≤ n := by
  cases restart
  · exact h
  · exact Nat.zero_le n

theorem callSession_spec {session session' : DirEnumSession} {searchExpression : Option WString}
    {restart : Bool} {buffer : EntryBuffer} {hr : HResult} {added : List NodeInfo}
    (hi : session.currentIndex ≤ session.matchingEntries.length)
    (hexpr : session.searchExpression = [] ∨
      session.searchExpression = scanExpression searchExpression)
    (h : callSession fileNameMatch restart searchExpression buffer session =
      (hr, added, session')) :
    ∃ k, session'.matchingEntries = session.matchingEntries ∧
      session'.searchExpression = scanExpression searchExpression ∧
      session'.currentIndex = startIndex restart session.currentIndex + k ∧
      session'.currentIndex ≤ session.matchingEntries.length ∧
      added = ((session.matchingEntries.drop (startIndex restart session.currentIndex)).take k).filter
        (matchesExpression fileNameMatch (scanExpression searchExpression)) ∧
      (Unending buffer → hr = errorNoMoreFiles →
        session'.currentIndex = session.matchingEntries.length) := by
  have hentry := enterCall_expression restart hexpr
  have hstart := startIndex_le restart hi
  simp only [callSession, hentry, Prod.mk.injEq] at h
  obtain ⟨rfl, rfl, rfl⟩ := h
  obtain ⟨k, hk, hidx, hadd, _, hend⟩ := fillEntries_spec fileNameMatch (scanExpression searchExpression) buffer
    (session.matchingEntries.drop (startIndex restart session.currentIndex))
    (startIndex restart session.currentIndex) [] rfl
  rw [List.length_drop] at hk hend
  refine ⟨k, rfl, rfl, hidx, ?_, hadd, fun hbuffer hno => ?_⟩
  · exact hidx.trans_le (by omega)
  · exact hidx.trans (by have := hend hbuffer hno; omega)

variable (fileNameMatch) in
/-- A call on an open session moves its position on, adds the matching children
that it passes, and reports the end of the scan only at the end of the children, unless
the buffer has failed with that code. -/
theorem step_get {id : Guid} {children : List NodeInfo} {searchExpression : Option WString} {i : Nat}
    {sessions : Sessions} (h : OpenAt id children searchExpression i sessions) (self restart : Bool)
    (buffer : EntryBuffer) {outcome : Outcome} {sessions' : Sessions}
    (hstep : step fileNameMatch sessions (.get self id restart searchExpression buffer) =
      (outcome, sessions')) : ∃ k,
    OpenAt id children searchExpression (startIndex (self && restart) i + k) sessions' ∧
      outcome.id = id ∧
      outcome.added = ((children.drop (startIndex (self && restart) i)).take k).filter
        (matchesExpression fileNameMatch (scanExpression searchExpression)) ∧
      (Unending buffer → outcome.result = errorNoMoreFiles →
        startIndex (self && restart) i + k = children.length) := by
  cases self with
  | false =>
      cases hstep
      exact ⟨0, h, rfl, rfl, fun _ hno => absurd hno (by decide : errorInvalidParameter ≠ _)⟩
  | true =>
      obtain ⟨session, hlookup, rfl, rfl, hi, hexpr⟩ := h
      cases hcall : callSession fileNameMatch restart searchExpression buffer session with
      | mk hr rest =>
          obtain ⟨added, session'⟩ := rest
          simp only [step, getDirEnumCallback, Bool.not_true, Bool.false_eq_true, if_false, hlookup,
            hcall, Prod.mk.injEq] at hstep
          obtain ⟨rfl, rfl⟩ := hstep
          obtain ⟨k, hm, he, hidx, hle, hadd, hend⟩ := callSession_spec hi hexpr hcall
          rw [hidx] at hle hend
          exact ⟨k, ⟨session', AList.lookup_insert _, hm, hidx, hle, Or.inr he⟩, rfl, hadd, hend⟩

variable (fileNameMatch) in
theorem step_other {id : Guid} {e : Event} (h : e.id ≠ id) (sessions : Sessions) :
    (step fileNameMatch sessions e).2.lookup id = sessions.lookup id ∧
      (step fileNameMatch sessions e).1.id ≠ id := by
  cases e with
  | start captured id' =>
      refine ⟨?_, h⟩
      cases captured with
      | error hr => rfl
      | ok children => exact AList.lookup_insert_ne (Ne.symm h)
  | finish id' => exact ⟨AList.lookup_erase_ne (Ne.symm h), h⟩
  | get self id' restart searchExpression buffer =>
      refine ⟨?_, h⟩
      cases self with
      | false => rfl
      | true =>
          simp only [step, getDirEnumCallback, Bool.not_true, Bool.false_eq_true, if_false]
          split
          · rfl
          · exact AList.lookup_insert_ne (Ne.symm h)

variable (fileNameMatch) in
theorem step_same {id : Guid} {e : Event} (hid : e.id = id) {sessions sessions' : Sessions}
    (h : sessions.lookup id = sessions'.lookup id) :
    (step fileNameMatch sessions e).1 = (step fileNameMatch sessions' e).1 ∧
      (step fileNameMatch sessions' e).1.id = id ∧
      (step fileNameMatch sessions e).2.lookup id = (step fileNameMatch sessions' e).2.lookup id := by
  subst hid
  cases e with
  | start captured id =>
      cases captured with
      | error hr => exact ⟨rfl, rfl, h⟩
      | ok children => exact ⟨rfl, rfl, by simp only [step, startSession, Event.id, AList.lookup_insert]⟩
  | finish id =>
      exact ⟨rfl, rfl, by simp only [step, endDirEnumCallback, Event.id, AList.lookup_erase]⟩
  | get self id restart searchExpression buffer =>
      cases self with
      | false => exact ⟨rfl, rfl, h⟩
      | true =>
          change sessions.lookup id = sessions'.lookup id at h
          simp only [step, getDirEnumCallback, Bool.not_true, Bool.false_eq_true, if_false, h]
          cases hlookup : sessions'.lookup id with
          | none => exact ⟨rfl, rfl, h⟩
          | some session => exact ⟨rfl, rfl, by simp only [Event.id, AList.lookup_insert]⟩

theorem OpenAt.congr {id : Guid} {children : List NodeInfo} {searchExpression : Option WString}
    {i : Nat} {sessions sessions' : Sessions} (h : OpenAt id children searchExpression i sessions)
    (he : sessions'.lookup id = sessions.lookup id) :
    OpenAt id children searchExpression i sessions' := by
  simpa only [OpenAt, he] using h

theorem OpenAt.le {id : Guid} {children : List NodeInfo} {searchExpression : Option WString}
    {i : Nat} {sessions : Sessions} (h : OpenAt id children searchExpression i sessions) :
    i ≤ children.length := by
  obtain ⟨_, _, _, _, hle, _⟩ := h
  exact hle

theorem delivered_cons (id : Guid) (o : Outcome) (outcomes : List Outcome) :
    delivered id (o :: outcomes) =
      if o.id = id then o.added ++ delivered id outcomes else delivered id outcomes := by
  by_cases h : o.id = id <;> simp [delivered, h]

/-- No buffer of the session's calls fails with the code for the end of a scan. -/
def Apart (id : Guid) (e : Event) : Prop :=
  ∀ self restart searchExpression buffer, e = .get self id restart searchExpression buffer →
    Unending buffer

variable (fileNameMatch) in
/-- The outcomes of the events deliver a contiguous piece of the matching children from
a position on, and all the rest of them when one call reports the end. -/
def Delivers (id : Guid) (children : List NodeInfo) (searchExpression : Option WString) (i : Nat)
    (events : List Event) (outcomes : List Outcome) : Prop :=
  ∃ k ≤ children.length - i,
    delivered id outcomes = ((children.drop i).take k).filter
      (matchesExpression fileNameMatch (scanExpression searchExpression)) ∧
    ((∀ e ∈ events, Apart id e) → (∃ o ∈ outcomes, o.id = id ∧ o.result = errorNoMoreFiles) →
      i + k = children.length)

section Delivery

variable {id : Guid} {children : List NodeInfo} {searchExpression : Option WString} {i : Nat}
  {events : List Event} {o : Outcome} {outcomes : List Outcome}

theorem Delivers.cons_get {k : Nat} {self restart : Bool} {buffer : EntryBuffer}
    (hle : i + k ≤ children.length) (ho : o.id = id)
    (hadd : o.added = ((children.drop i).take k).filter
      (matchesExpression fileNameMatch (scanExpression searchExpression)))
    (hend : Unending buffer → o.result = errorNoMoreFiles → i + k = children.length)
    (h : Delivers fileNameMatch id children searchExpression (i + k) events outcomes) :
    Delivers fileNameMatch id children searchExpression i
      (.get self id restart searchExpression buffer :: events) (o :: outcomes) := by
  obtain ⟨k', hk', hdel, hend'⟩ := h
  refine ⟨k + k', by omega, ?_, fun hapart => ?_⟩
  · rw [delivered_cons, if_pos ho, hadd, hdel, List.take_add, List.filter_append, List.drop_drop]
  · obtain ⟨hbuffer, hrest⟩ := List.forall_mem_cons.mp hapart
    simp only [List.mem_cons]
    rintro ⟨o', rfl | hmem, hoid, hno⟩
    · have := hend (hbuffer _ _ _ _ rfl) hno
      omega
    · have := hend' hrest ⟨o', hmem, hoid, hno⟩
      omega

theorem Delivers.cons_other {e : Event} (ho : o.id ≠ id)
    (h : Delivers fileNameMatch id children searchExpression i events outcomes) :
    Delivers fileNameMatch id children searchExpression i (e :: events) (o :: outcomes) := by
  obtain ⟨k, hk, hdel, hend⟩ := h
  refine ⟨k, hk, by rw [delivered_cons, if_neg ho, hdel], fun hapart => ?_⟩
  simp only [List.mem_cons]
  rintro ⟨o', rfl | hmem, hoid, hno⟩
  · exact absurd hoid ho
  · exact hend (List.forall_mem_cons.mp hapart).2 ⟨o', hmem, hoid, hno⟩

theorem run_delivers {sessions : Sessions} (h : OpenAt id children searchExpression i sessions)
    (hcalls : ∀ e ∈ events, Calls id searchExpression e) (hgoes : ∀ e ∈ events, Continues id e) :
    Delivers fileNameMatch id children searchExpression i events
      (run fileNameMatch sessions events) := by
  induction events generalizing sessions i with
  | nil => exact ⟨0, Nat.zero_le _, rfl, fun _ => nofun⟩
  | cons e events ih =>
      obtain ⟨hcall, hcalls'⟩ := List.forall_mem_cons.mp hcalls
      obtain ⟨hgo, hgoes'⟩ := List.forall_mem_cons.mp hgoes
      by_cases hid : e.id = id
      · obtain ⟨self, restart, buffer, rfl⟩ := hcall hid
        have hr : (self && restart) = false := by
          refine Bool.eq_false_iff.mpr fun hr => ?_
          obtain ⟨rfl, rfl⟩ := Bool.and_eq_true_iff.mp hr
          exact hgo searchExpression buffer rfl
        obtain ⟨k, hopen, ho, hadd, hend⟩ := step_get fileNameMatch h self restart buffer rfl
        rw [hr] at hopen hadd hend
        exact .cons_get hopen.le ho hadd hend (ih hopen hcalls' hgoes')
      · obtain ⟨hsame, ho⟩ := step_other fileNameMatch hid sessions
        exact .cons_other ho (ih (h.congr hsame) hcalls' hgoes')

end Delivery

theorem start_opens (fileNameMatch : Option (WString → WString → Bool)) (sessions : Sessions)
    (id : Guid) (children : List NodeInfo) (searchExpression : Option WString) :
    OpenAt id children searchExpression 0
      (step fileNameMatch sessions (.start (.ok children) id)).2 :=
  ⟨⟨[], children, 0⟩, AList.lookup_insert _, rfl, rfl, Nat.zero_le _, Or.inl rfl⟩

variable (fileNameMatch) in
theorem after_open {id : Guid} {children : List NodeInfo} {searchExpression : Option WString}
    {i : Nat} {sessions : Sessions} (h : OpenAt id children searchExpression i sessions)
    {events : List Event} (hcalls : ∀ e ∈ events, Calls id searchExpression e) :
    ∃ j, OpenAt id children searchExpression j (after fileNameMatch sessions events) := by
  induction events generalizing sessions i with
  | nil => exact ⟨i, h⟩
  | cons e events ih =>
      have hcalls' : ∀ e ∈ events, Calls id searchExpression e := fun _ he =>
        hcalls _ (List.mem_cons_of_mem _ he)
      by_cases hid : e.id = id
      · obtain ⟨self, restart, buffer, rfl⟩ := hcalls e (List.mem_cons_self ..) hid
        obtain ⟨k, hopen, _⟩ := step_get fileNameMatch h self restart buffer rfl
        exact ih hopen hcalls'
      · exact ih (h.congr (step_other fileNameMatch hid sessions).1) hcalls'

/-- The calls of a scan: all those since the start of the session, or a restarting
call and those behind it. -/
def IsScan (id : Guid) (searchExpression : Option WString) (earlier scan : List Event) : Prop :=
  (earlier = [] ∧ ∀ e ∈ scan, Continues id e) ∨
    ∃ buffer rest, scan = .get true id true searchExpression buffer :: rest ∧
      ∀ e ∈ rest, Continues id e

theorem scan_delivers {id : Guid} {children : List NodeInfo} {searchExpression : Option WString}
    {sessions : Sessions} {earlier scan : List Event}
    (h : OpenAt id children searchExpression 0 sessions)
    (hcalls : ∀ e ∈ earlier ++ scan, Calls id searchExpression e)
    (hscan : IsScan id searchExpression earlier scan) :
    Delivers fileNameMatch id children searchExpression 0 scan
      (run fileNameMatch (after fileNameMatch sessions earlier) scan) := by
  obtain ⟨hearlier, hcalls'⟩ := List.forall_mem_append.mp hcalls
  rcases hscan with ⟨rfl, hgoes⟩ | ⟨buffer, rest, rfl, hgoes⟩
  · exact run_delivers h hcalls' hgoes
  · obtain ⟨j, hopen⟩ := after_open fileNameMatch h hearlier
    obtain ⟨k, hopen', ho, hadd, hend⟩ := step_get fileNameMatch hopen true true buffer rfl
    exact .cons_get hopen'.le ho hadd hend
      (run_delivers hopen' (List.forall_mem_cons.mp hcalls').2 hgoes)

theorem get_ok_added (fileNameMatch : Option (WString → WString → Bool)) (self : Bool) (id : Guid)
    (restart : Bool) (searchExpression : Option WString) (buffer : EntryBuffer) (sessions : Sessions)
    (h : (getDirEnumCallback fileNameMatch self id restart searchExpression buffer sessions).1 = sOk) :
    (getDirEnumCallback fileNameMatch self id restart searchExpression buffer sessions).2.1 ≠ [] := by
  unfold getDirEnumCallback at h ⊢
  cases self with
  | false => exact absurd h (by decide : errorInvalidParameter ≠ sOk)
  | true =>
      cases hlookup : sessions.lookup id with
      | none =>
          rw [hlookup] at h
          exact absurd h (by decide : errorInvalidParameter ≠ sOk)
      | some session =>
          rw [hlookup] at h
          obtain ⟨_, _, _, _, hok, _⟩ := fillEntries_spec fileNameMatch
            (enterCall restart searchExpression session).searchExpression buffer
            ((enterCall restart searchExpression session).matchingEntries.drop
              (enterCall restart searchExpression session).currentIndex)
            (enterCall restart searchExpression session).currentIndex [] rfl
          exact hok h

/-- What a session sees is what it would see alone. -/
theorem run_filter (fileNameMatch : Option (WString → WString → Bool)) (id : Guid)
    {events : List Event} {sessions sessions' : Sessions}
    (h : sessions.lookup id = sessions'.lookup id) :
    (run fileNameMatch sessions events).filter (fun o => o.id = id) =
      run fileNameMatch sessions' (events.filter fun e => e.id = id) := by
  induction events generalizing sessions sessions' with
  | nil => rfl
  | cons e events ih =>
      by_cases hid : e.id = id
      · have hstep := step_same fileNameMatch hid h
        rw [List.filter_cons_of_pos (by simpa using hid), run, run, hstep.1,
          List.filter_cons_of_pos (by simpa using hstep.2.1), ih hstep.2.2]
      · obtain ⟨hsame, ho⟩ := step_other fileNameMatch hid sessions
        rw [List.filter_cons_of_neg (by simpa using hid), run,
          List.filter_cons_of_neg (by simpa using ho), ih (hsame.trans h)]

/-- Whatever the other sessions do and however the entries fall on the calls, a scan
that is told of its end has delivered every matching child once and in order, if no
buffer fails with the code for the end. -/
theorem enumeration_exact (fileNameMatch : Option (WString → WString → Bool)) (id : Guid) :
    (∀ (sessions : Sessions) (children : List NodeInfo) (searchExpression : Option WString)
        (earlier scan : List Event),
      (∀ e ∈ earlier ++ scan, Calls id searchExpression e) →
      IsScan id searchExpression earlier scan →
      let outcomes := run fileNameMatch
        (after fileNameMatch sessions (.start (.ok children) id :: earlier)) scan
      delivered id outcomes <+: children.filter
          (matchesExpression fileNameMatch (scanExpression searchExpression)) ∧
        ((∀ e ∈ scan, Apart id e) → (∃ o ∈ outcomes, o.id = id ∧ o.result = errorNoMoreFiles) →
          delivered id outcomes = children.filter
            (matchesExpression fileNameMatch (scanExpression searchExpression)))) ∧
    (∀ self restart searchExpression buffer sessions,
      (getDirEnumCallback fileNameMatch self id restart searchExpression buffer sessions).1 = sOk →
      (getDirEnumCallback fileNameMatch self id restart searchExpression buffer sessions).2.1 ≠ []) ∧
    (∀ sessions events,
      (run fileNameMatch sessions events).filter (fun o => o.id = id) =
        run fileNameMatch sessions (events.filter fun e => e.id = id)) ∧
    ∀ sessions e, e.id ≠ id →
      (step fileNameMatch sessions e).2.lookup id = sessions.lookup id := by
  refine ⟨?_, fun self restart searchExpression buffer sessions =>
    get_ok_added fileNameMatch self id restart searchExpression buffer sessions,
    fun sessions events => run_filter fileNameMatch id rfl,
    fun sessions e he => (step_other fileNameMatch he sessions).1⟩
  intro sessions children searchExpression earlier scan hcalls hscan outcomes
  have hopen := start_opens fileNameMatch sessions id children searchExpression
  obtain ⟨k, _, hdel, hend⟩ := scan_delivers hopen hcalls hscan
  rw [List.drop_zero] at hdel
  refine ⟨?_, fun hapart hno => ?_⟩
  · exact hdel ▸ (List.take_prefix k children).filter _
  · have hk := hend hapart hno
    rw [Nat.zero_add] at hk
    rw [hk, List.take_length] at hdel
    exact hdel

def roomy : EntryBuffer := fun _ _ _ => sOk

def oneEntry : EntryBuffer := fun added _ _ =>
  if added.isEmpty then sOk else errorInsufficientBuffer

theorem oneEntry_unending : Unending oneEntry := by
  intro added name info
  rw [oneEntry]
  split <;> decide

def plainFile (name : Name) (inodeNum : UInt32) : NodeInfo :=
  ⟨name, name, inodeNum, 0, attributeReadonly, ⟨0, 0⟩, ⟨0, 0⟩, ⟨0, 0⟩, false, false⟩

theorem enumeration_exact_split :
    delivered .zero (run none (after none ∅
        [.start (.ok [plainFile [0x61] 12, plainFile [0x62] 13]) .zero])
      (List.replicate 3 (.get true .zero false none oneEntry))) =
      [plainFile [0x61] 12, plainFile [0x62] 13] := by
  refine ((enumeration_exact none .zero).1 ∅ [plainFile [0x61] 12, plainFile [0x62] 13] none []
    (List.replicate 3 (.get true .zero false none oneEntry)) ?_ (Or.inl ⟨rfl, ?_⟩)).2 ?_ ?_
  · intro e he _
    exact ⟨true, false, oneEntry, List.eq_of_mem_replicate he⟩
  · intro e he searchExpression buffer h
    cases (List.eq_of_mem_replicate he).symm.trans h
  · rintro e he _ _ _ _ rfl
    cases List.eq_of_mem_replicate he
    exact oneEntry_unending
  · exact ⟨⟨.zero, errorNoMoreFiles, []⟩, by
      refine List.mem_cons_of_mem _ (List.mem_cons_of_mem _ (List.mem_singleton.mpr ?_))
      rfl, rfl, rfl⟩

/-- A buffer that takes one entry and fails on the next one with the code for the end. -/
def endsEarly : EntryBuffer := fun added _ _ => if added.isEmpty then sOk else errorNoMoreFiles

/-- The callback passes the failure on, and the scan ends after the first of two entries. -/
theorem early_end_cuts_scan :
    let outcomes := run none (after none ∅
      [.start (.ok [plainFile [0x61] 12, plainFile [0x62] 13]) .zero])
      [.get true .zero false none endsEarly]
    (∃ o ∈ outcomes, o.id = .zero ∧ o.result = errorNoMoreFiles) ∧
      delivered .zero outcomes = [plainFile [0x61] 12] ∧
      delivered .zero outcomes ≠ [plainFile [0x61] 12, plainFile [0x62] 13].filter
        (matchesExpression none (scanExpression none)) := by
  intro outcomes
  have hdelivered : delivered .zero outcomes = [plainFile [0x61] 12] := rfl
  refine ⟨⟨⟨.zero, errorNoMoreFiles, [plainFile [0x61] 12]⟩, List.mem_singleton.mpr rfl, rfl, rfl⟩,
    hdelivered, ?_⟩
  rw [hdelivered]
  decide

end Linux2Win.EnumSessions
