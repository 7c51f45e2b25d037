import Linux2Win.EnumSessions
import Linux2Win.ListedPaths
import Linux2Win.Provider
import Linux2Win.WideNames

namespace Linux2Win.OpenedEntries

open Bytes Devices Reader Directory Guids Programs Vfs NodeTree TreeCalls PathNames Listings ListedPaths
open Resolvers NodeSoundness DirEnum EnumSessions WideNames Callbacks Transducers Provider

section Paths

theorem narrow_byte : ∀ c : Byte, c.toInt8.toInt16.toUInt16.toUInt8 = c :=
  forall_byte (by decide +kernel)

theorem narrowPath_widen (name : Name) : narrowPath (widen name) = name := by
  rw [narrowPath, widen, List.map_map]
  exact (List.map_congr_left fun c _ => narrow_byte c).trans (List.map_id name)

/-- The path of an entry as Windows makes it up: the path of the directory, and behind a
separator the name that the buffer was given. -/
def entryPath (filePathName : Option WString) (entry : NodeInfo) : WString :=
  if ((filePathName.map cStr).getD []).isEmpty then passedName entry.name
  else (filePathName.map cStr).getD [] ++ [0x5C] ++ passedName entry.name

theorem cStr_of_no_nul {w : WString} (h : 0 ∉ w) : cStr w = w := by
  rw [cStr, List.takeWhile_eq_self_iff]
  intro u hu
  rw [bne_iff_ne]
  rintro rfl
  exact h hu

theorem no_nul_cStr (w : WString) : 0 ∉ cStr w := fun h => by
  simpa using List.mem_takeWhile_imp h

theorem cStr_entryPath (filePathName : Option WString) (entry : NodeInfo) :
    cStr (entryPath filePathName entry) = entryPath filePathName entry := by
  apply cStr_of_no_nul
  have hname := no_nul_cStr (widen entry.name)
  have hdir : 0 ∉ (filePathName.map cStr).getD [] := by
    cases filePathName with
    | none => exact List.not_mem_nil
    | some path => exact no_nul_cStr path
  rw [entryPath]
  split
  · exact hname
  · simp only [List.mem_append, List.mem_singleton, not_or]
    exact ⟨⟨hdir, by decide⟩, hname⟩

theorem partsOf_entry (filePathName : Option WString) {entry : NodeInfo} (hplain : PlainName entry.name)
    (hnul : 0 ∉ entry.name) :
    partsOf (some (entryPath filePathName entry)) = partsOf filePathName ++ [entry.name] := by
  rw [partsOf, Option.map_some, Option.getD_some, cStr_entryPath, partsOf, entryPath,
    passedName_eq hnul]
  split
  · next hempty =>
      rw [List.isEmpty_iff.mp hempty, narrowPath_widen, pathParts_eq, components_plain hplain]
      rfl
  · rw [narrowPath, List.map_append, List.map_append]
    change pathParts (narrowPath _ ++ [backslash] ++ narrowPath (widen entry.name)) = _
    rw [narrowPath_widen, pathParts_eq, pathParts_eq, List.append_assoc, List.singleton_append,
      components_append_cons _ _ rfl, components_plain hplain]

end Paths

section Volume

variable {g : FsReader Id} {filePathName : Option WString} {children : List NodeInfo} {k : NodeInfo}

theorem resolve_child (hp : Projectable g) (hl : Listed g)
    (hcaptured : captured g true filePathName = .ok children) (hk : k ∈ children) (hnul : 0 ∉ k.name) :
    resolve g true (some (entryPath filePathName k)) = .ok k := by
  rw [captured, resolve] at hcaptured
  cases hlocate : locate g (partsOf filePathName) with
  | none => rw [hlocate] at hcaptured; cases hcaptured
  | some info =>
      obtain ⟨names, hnamed⟩ := named_locate hlocate
      have hlinked := (named_path hp hl hnamed).2.2
      rw [hlocate] at hcaptured
      cases hdir : info.isDirectory with
      | false => simp [Except.bind, hdir] at hcaptured
      | true =>
          obtain rfl : kids g info = children := by simpa [Except.bind, hdir] using hcaptured
          obtain ⟨_, entries, e, st, hlist, he, _, hinfo⟩ := mem_kids hk
          have hplain : PlainName k.name := hinfo ▸ plain_entry hp hl hlinked hlist he
          rw [resolve, partsOf_entry filePathName hplain hnul, locate_kid hp hlinked hlocate hk]
          rfl

end Volume

section Sessions

variable {dev : Device Id} {rd : Ext4Reader} {fuel : Nat}
  {fileNameMatch : Option (WString → WString → Bool)} {id : Guid} {children : List NodeInfo}
  {sessions sessions' : Sessions}

def Holds (id : Guid) (children : List NodeInfo) (sessions : Sessions) : Prop :=
  ∀ session, sessions.lookup id = some session → session.matchingEntries = children

theorem Holds.insert_ne {id' : Guid} (h : Holds id children sessions) (hne : id' ≠ id)
    (session : DirEnumSession) : Holds id children (sessions.insert id' session) := by
  intro s hs
  rw [AList.lookup_insert_ne hne.symm] at hs
  exact h s hs

theorem holds_get (h : Holds id children sessions) (self : Bool) (id' : Guid) (restart : Bool)
    (searchExpression : Option WString) (buffer : EntryBuffer) :
    Holds id children (getDirEnumCallback fileNameMatch self id' restart searchExpression buffer
      sessions).2.2 := by
  rw [getDirEnumCallback]
  cases self with
  | false => exact h
  | true =>
      cases hs : sessions.lookup id' with
      | none => exact h
      | some session =>
          by_cases hid : id' = id
          · subst hid
            intro s hlookup
            simp only [Bool.not_true, Bool.false_eq_true, if_false, AList.lookup_insert,
              Option.some.injEq] at hlookup
            rw [← hlookup]
            exact h session hs
          · exact h.insert_ne hid _

theorem leave_keeps {pending : Pending} {answer : Answer} (h : Holds id children sessions)
    (hne : ∀ captured, pending ≠ .insert captured id)
    (hleave : leave dev rd fuel fileNameMatch pending sessions = pure (answer, sessions')) :
    Holds id children sessions' := by
  cases pending with
  | insert captured id' =>
      have hid : id' ≠ id := fun hid => hne captured (hid ▸ rfl)
      cases pure_injective hleave
      cases captured with
      | error hr => exact h
      | ok children' => exact h.insert_ne hid _
  | get self id' restart searchExpression buffer =>
      cases pure_injective hleave
      exact holds_get h self id' restart searchExpression buffer
  | erase id' =>
      cases pure_injective hleave
      intro s hs
      by_cases hid : id = id'
      · subst hid
        rw [endDirEnumCallback, AList.lookup_erase] at hs
        cases hs
      · rw [endDirEnumCallback, AList.lookup_erase_ne hid] at hs
        exact h s hs
  | read file byteOffset length buffer =>
      obtain ⟨_, _, hend⟩ := bind_eq_pure.mp hleave
      cases pure_injective hend
      exact h
  | done answer' =>
      cases pure_injective hleave
      exact h

theorem get_added (h : Holds id children sessions) {self restart : Bool}
    {searchExpression : Option WString} {buffer : EntryBuffer} {k : NodeInfo}
    (hk : k ∈ (getDirEnumCallback fileNameMatch self id restart searchExpression buffer sessions).2.1) :
    k ∈ children := by
  rw [getDirEnumCallback] at hk
  cases self with
  | false => cases hk
  | true =>
      cases hs : sessions.lookup id with
      | none => rw [hs] at hk; cases hk
      | some session =>
          rw [hs] at hk
          rw [← h session hs]
          obtain ⟨n, _, _, hadded, _⟩ := fillEntries_spec fileNameMatch
            (enterCall restart searchExpression session).searchExpression buffer
            (session.matchingEntries.drop (enterCall restart searchExpression session).currentIndex)
            (enterCall restart searchExpression session).currentIndex [] rfl
          have hmem : k ∈ (fillEntries fileNameMatch
            (enterCall restart searchExpression session).searchExpression buffer
            (session.matchingEntries.drop (enterCall restart searchExpression session).currentIndex)
            (enterCall restart searchExpression session).currentIndex []).2.2 := hk
          rw [hadded, List.nil_append] at hmem
          exact List.mem_of_mem_drop (List.mem_of_mem_take (List.mem_filter.mp hmem).1)

end Sessions

structure Opens {ι : Type} (i : ι) (path : WString) (entry : NodeInfo) (request : Request ι)
    (answer : Answer) : Prop where
  placeholder : request = ⟨i, true, .getPlaceholderInfo (some path)⟩ →
    answer = .placeholder (.ok (some path, basicInfo entry))
  enumerated : ∀ id, request = ⟨i, true, .startDirEnum (some path) id⟩ →
    answer = .status (if entry.isDirectory then sOk else errorFileNotFound)
  read : ∀ byteOffset length buffer,
    request = ⟨i, true, .getFileData (some path) byteOffset length buffer⟩ →
      (answer = .fileData (.error errorFileNotFound) ↔ entry.isDirectory = true)

section Requests

variable {ι : Type} {mounts : ι → Mount Id} {fuel : Nat}
  {fileNameMatch : Option (WString → WString → Bool)} {g : ι → FsReader Id} {i : ι}
  {sessions sessions' : Sessions} {answer : Answer}

theorem serve_start {filePathName : Option WString} {id : Guid}
    (h : serve mounts fuel fileNameMatch g ⟨i, true, .startDirEnum filePathName id⟩ sessions =
      pure (answer, sessions')) :
    (∃ hr, captured (g i) true filePathName = .error hr ∧ answer = .status hr) ∨
      ∃ children, captured (g i) true filePathName = .ok children ∧ answer = .status sOk ∧
        Holds id children sessions' := by
  have h' := pure_injective h
  cases hc : captured (g i) true filePathName with
  | error hr =>
      rw [hc] at h'
      cases h'
      exact Or.inl ⟨hr, rfl, rfl⟩
  | ok children =>
      rw [hc] at h'
      cases h'
      refine Or.inr ⟨children, rfl, rfl, fun s hs => ?_⟩
      rw [startSession, AList.lookup_insert, Option.some.injEq] at hs
      rw [← hs]

theorem captured_error {g : FsReader Id} {filePathName : Option WString} {hr : HResult}
    (h : captured g true filePathName = .error hr) : hr = errorFileNotFound := by
  rw [captured, resolve] at h
  cases hlocate : locate g (partsOf filePathName) with
  | none => rw [hlocate] at h; cases h; rfl
  | some info =>
      rw [hlocate] at h
      cases hdir : info.isDirectory with
      | true => simp [Except.bind, hdir] at h
      | false =>
          simp only [Bool.not_true, Bool.false_eq_true, if_false, Except.bind, hdir] at h
          cases h
          rfl

theorem readFile_found {dev : Device Id} {rd : Ext4Reader} {info : NodeInfo} {byteOffset : UInt64}
    {length : UInt32} {buffer : Option (List Byte)} {handed : Except HResult (List Byte)}
    (h : readFile dev rd fuel (.ok info) byteOffset length buffer = pure handed) :
    handed ≠ .error errorFileNotFound := by
  simp only [readFile] at h
  cases buffer with
  | none =>
      cases pure_injective h
      intro h
      exact absurd (Except.error.inj h) (by decide)
  | some buffer =>
      obtain ⟨r, _, hend⟩ := bind_eq_pure.mp h
      split at hend
      · cases pure_injective hend
        intro h
        exact absurd (Except.error.inj h) (by decide)
      · cases pure_injective hend
        simp

theorem serve_opens {path : WString} {entry : NodeInfo} {request : Request ι}
    (hresolve : resolve (g i) true (some path) = .ok entry)
    (h : serve mounts fuel fileNameMatch g request sessions = pure (answer, sessions')) :
    Opens i path entry request answer where
  placeholder hreq := by
    subst hreq
    cases pure_injective h
    rw [hresolve]
    rfl
  enumerated id hreq := by
    subst hreq
    have hcaptured : captured (g i) true (some path) =
        if entry.isDirectory then .ok (kids (g i) entry) else .error errorFileNotFound := by
      rw [captured, hresolve]
      rfl
    cases hdir : entry.isDirectory with
    | true =>
        rcases serve_start h with ⟨hr, herror, _⟩ | ⟨_, _, hanswer, _⟩
        · simp [hcaptured, hdir] at herror
        · exact hanswer
    | false =>
        rcases serve_start h with ⟨hr, herror, hanswer⟩ | ⟨_, hok, _⟩
        · rw [hanswer, captured_error herror]
          rfl
        · simp [hcaptured, hdir] at hok
  read byteOffset length buffer hreq := by
    subst hreq
    have hfile : file (g i) true (some path) =
        if entry.isDirectory then .error errorFileNotFound else .ok entry := by
      rw [file, hresolve]
      rfl
    obtain ⟨handed, hread, hend⟩ := bind_eq_pure.mp h
    cases pure_injective hend
    rw [hfile] at hread
    cases hdir : entry.isDirectory with
    | true =>
        rw [hdir, if_pos rfl] at hread
        cases pure_injective hread
        simp
    | false =>
        rw [hdir, if_neg Bool.false_ne_true] at hread
        simpa using readFile_found hread

end Requests

/-- Whatever else goes on, every entry that an enumeration hands over can be opened by
its path, with the same information and as what it was shown to be. -/
theorem entry_opens {ι : Type} [DecidableEq ι] (mounts : ι → Mount Id) (fuel : Nat)
    (fileNameMatch : Option (WString → WString → Bool)) (g : ι → FsReader Id)
    (hserves : ∀ i, Serves (ext4 (mounts i).dev (mounts i).rd fuel) (g i))
    (hp : ∀ i, Projectable (g i)) (turns : List (Turn ι)) (answers : List Answer)
    (hrun : run mounts fuel fileNameMatch (start ι) turns = pure answers)
    (i : ι) (filePathName : Option WString) (id : Guid) (a b : Nat) (hab : a < b)
    (hstart : (completed (fun _ => none) turns)[a]? = some ⟨i, true, .startDirEnum filePathName id⟩)
    (hok : answers[a]? = some (.status sOk))
    (hsame : ∀ c, a < c → c < b → ∀ j self path,
      (completed (fun _ => none) turns)[c]? ≠ some ⟨j, self, .startDirEnum path id⟩)
    (j : ι) (self restart : Bool) (searchExpression : Option WString) (buffer : EntryBuffer)
    (hget : (completed (fun _ => none) turns)[b]? =
      some ⟨j, self, .getDirEnum id restart searchExpression buffer⟩)
    (hr : HResult) (added : List NodeInfo) (hadded : answers[b]? = some (.entries hr added))
    (entry : NodeInfo) (hentry : entry ∈ added) (hnul : 0 ∉ entry.name) (c : Nat) (request : Request ι)
    (hc : (completed (fun _ => none) turns)[c]? = some request) (answer : Answer)
    (hanswer : answers[c]? = some answer) :
    Opens i (entryPath filePathName entry) entry request answer := by
  rw [run_served turns (fun i _ => hserves i) hp (fun _ => Inv.empty) underWay_start] at hrun
  have hl := listed_of_serves (hserves i)
  cases hcaptured : captured (g i) true filePathName with
  | error hr' =>
      obtain ⟨_, answer', _, _, hserve, hans⟩ := answer_at (P := fun _ => True) hrun trivial hstart
        fun _ _ _ _ _ _ _ _ _ => trivial
      cases hok.symm.trans hans
      rcases serve_start hserve with ⟨_, herror, hstatus⟩ | ⟨_, hchildren, _⟩
      · rw [captured_error herror] at hstatus
        exact absurd (Answer.status.inj hstatus) (by decide)
      · cases hcaptured.symm.trans hchildren
  | ok children =>
      obtain ⟨sessions, answer', sessions', hholds, hserve, hans⟩ :=
        answer_after (P := Holds id children) hrun hstart hok hab hget
          (fun s s' hserve => by
            rcases serve_start hserve with ⟨_, herror, _⟩ | ⟨_, hchildren, _, hholds⟩
            · cases hcaptured.symm.trans herror
            · cases hcaptured.symm.trans hchildren
              exact hholds)
          (fun c hac hcb q hq s s' x hholds hserve => by
            refine leave_keeps hholds (fun captured hpending => ?_) hserve
            cases hcallback : q.callback with
            | startDirEnum path id' =>
                rw [hcallback, pending, Pending.insert.injEq] at hpending
                refine hsame c hac hcb q.mount q.self path (hq.trans ?_)
                rw [← hpending.2, ← hcallback]
            | _ => rw [hcallback] at hpending; cases hpending)
      cases hadded.symm.trans hans
      have hk : entry ∈ children := by
        have h' := pure_injective hserve
        simp only [Prod.mk.injEq, Answer.entries.injEq] at h'
        exact get_added hholds (h'.1.2 ▸ hentry)
      obtain ⟨_, answer'', _, _, hserve', hans'⟩ := answer_at (P := fun _ => True) hrun trivial hc
        fun _ _ _ _ _ _ _ _ _ => trivial
      cases hanswer.symm.trans hans'
      exact serve_opens (resolve_child (hp i) hl hcaptured hk hnul) hserve'

def plainTurns : List (Turn Unit) :=
  [.enter 0 ⟨(), true, .startDirEnum none .zero⟩, .leave 0,
    .enter 0 ⟨(), true, .getDirEnum .zero false none roomy⟩, .leave 0,
    .enter 0 ⟨(), true, .getFileData (some [0x66]) 0 3 (some [0, 0, 0])⟩, .leave 0]

def plainEntry (name : Name) (inodeNum : UInt32) (size : UInt64) (isDirectory : Bool) : NodeInfo :=
  let time := unixEpochToFiletime 0
  let kind := if isDirectory then attributeDirectory else attributeNormal
  ⟨name, name, inodeNum, size, attributeReadonly ||| kind, time, time, time, isDirectory, false⟩

def plainAnswers : List Answer :=
  [.status sOk, .entries sOk [plainEntry [0x64] 11 1024 true, plainEntry [0x66] 12 3 false],
    .fileData (.ok [0x61, 0x62, 0x63])]

theorem plain_run : run (fun _ : Unit => plainMount) 2 none (start Unit) plainTurns = pure plainAnswers :=
  result_eq_some.mp (by decide +kernel)

theorem entry_opens_plain : Opens () (entryPath none (plainEntry [0x66] 12 3 false))
    (plainEntry [0x66] 12 3 false)
    ⟨(), true, .getFileData (some [0x66]) 0 3 (some [0, 0, 0])⟩ (.fileData (.ok [0x61, 0x62, 0x63])) :=
  entry_opens (fun _ => plainMount) 2 none (fun _ => answers plainSource)
    (fun _ => serves_of_closed plain_closed) (fun _ => plain_projectable) plainTurns plainAnswers
    plain_run () none .zero 0 1 (by decide) rfl rfl (fun c h h' => by omega) () true false none roomy rfl
    sOk _ rfl _ (by decide) (by decide) 2 _ rfl _ rfl

end Linux2Win.OpenedEntries
