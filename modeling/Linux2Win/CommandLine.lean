import Linux2Win.MountDirs

namespace Linux2Win.CommandLine

open Bytes Guids Mounts MountDirs

def isDigit (c : Byte) : Bool := 0x30 ≤ c && c ≤ 0x39

def digitsValue (digits : List Byte) : Nat := digits.foldl (fun n c => 10 * n + (c.toNat - 0x30)) 0

inductive StoulError
  | invalidArgument | outOfRange
  deriving DecidableEq, Repr

/-- A number behind its sign, where an `unsigned long` has 32 bits. -/
def signed (negative : Bool) (n : Nat) : UInt32 :=
  if negative then 0 - UInt32.ofNat n else UInt32.ofNat n

/-- `std::stoul` in base 10: blanks, a sign, then as many digits as there are; what follows
them is ignored. -/
def stoul (str : List Byte) : Except StoulError UInt32 :=
  let s := str.dropWhile isSpace
  let negative := s.head? == some 0x2D
  let s := if s.head? == some 0x2B || negative then s.tail else s
  let digits := s.takeWhile isDigit
  if digits.isEmpty then .error .invalidArgument
  else if digitsValue digits ≥ 2 ^ 32 then .error .outOfRange
  else .ok (signed negative (digitsValue digits))

inductive Command
  | cmdScan | cmdMonitor | cmdAuto
  | cmdMount (diskIdx partIdx : UInt32) (target : List Byte)
  | cmdLs (diskIdx partIdx : UInt32) (path : List Byte)
  | cmdCat (diskIdx partIdx : UInt32) (filePath : List Byte)
  | cmdExport (diskIdx partIdx : UInt32) (src dst : List Byte)
  deriving DecidableEq, Repr

/-- An exception of `std::stoul` is not caught. -/
inductive Outcome
  | usage
  | missing (cmd : List Byte)
  | unknown (cmd : List Byte)
  | aborts (error : StoulError)
  | runs (command : Command)
  deriving DecidableEq, Repr

/-- What the process returns, none where it is aborted. -/
def exitCode : Outcome → Option UInt32
  | .usage => some 0
  | .missing _ => some 1
  | .unknown _ => some 1
  | .aborts _ => none
  | .runs _ => some 0

/-- The call with the numbers of a disk and a partition, the disk's read first. -/
def withIndices (disk part : List Byte) (command : UInt32 → UInt32 → Command) : Outcome :=
  match stoul disk with
  | .error e => .aborts e
  | .ok diskIdx =>
    match stoul part with
    | .error e => .aborts e
    | .ok partIdx => .runs (command diskIdx partIdx)

def main : List (List Byte) → Outcome
  | [] | [_] => .usage
  | _ :: cmd :: args =>
    if cmd = asciiBytes "scan" then .runs .cmdScan
    else if cmd = asciiBytes "monitor" then .runs .cmdMonitor
    else if cmd = asciiBytes "auto" then .runs .cmdAuto
    else if cmd = asciiBytes "mount" then
      match args with
      | disk :: part :: rest => withIndices disk part fun d p => .cmdMount d p (rest.headD [])
      | _ => .missing cmd
    else if cmd = asciiBytes "ls" then
      match args with
      | disk :: part :: rest => withIndices disk part fun d p => .cmdLs d p (rest.headD (asciiBytes "/"))
      | _ => .missing cmd
    else if cmd = asciiBytes "cat" then
      match args with
      | disk :: part :: filePath :: _ => withIndices disk part fun d p => .cmdCat d p filePath
      | _ => .missing cmd
    else if cmd = asciiBytes "export" then
      match args with
      | disk :: part :: src :: dst :: _ => withIndices disk part fun d p => .cmdExport d p src dst
      | _ => .missing cmd
    else .unknown cmd

/-- A text that starts with a number: blanks and a sign may stand before the digits, and
anything but a digit behind them. -/
structure Reads (text : List Byte) (n : UInt32) (blanks sign digits rest : List Byte) : Prop where
  split : text = blanks ++ (sign ++ (digits ++ rest))
  blank : ∀ c ∈ blanks, isSpace c = true
  signs : sign = [] ∨ sign = [0x2B] ∨ sign = [0x2D]
  nonempty : digits ≠ []
  digit : ∀ c ∈ digits, isDigit c = true
  stops : ∀ c ∈ rest.head?, isDigit c = false
  fits : digitsValue digits < 2 ^ 32
  value : n = signed (sign == [0x2D]) (digitsValue digits)

def Numeral (text : List Byte) (n : UInt32) : Prop :=
  ∃ blanks sign digits rest, Reads text n blanks sign digits rest

inductive Plain : List Byte → Command → Prop
  | scan : Plain (asciiBytes "scan") .cmdScan
  | monitor : Plain (asciiBytes "monitor") .cmdMonitor
  | auto : Plain (asciiBytes "auto") .cmdAuto

inductive Indexed : List Byte → List (List Byte) → (UInt32 → UInt32 → Command) → Prop
  | mount : Indexed (asciiBytes "mount") [] fun d p => .cmdMount d p []
  | mountAt (target : List Byte) (rest : List (List Byte)) :
      Indexed (asciiBytes "mount") (target :: rest) fun d p => .cmdMount d p target
  | ls : Indexed (asciiBytes "ls") [] fun d p => .cmdLs d p [0x2F]
  | lsAt (path : List Byte) (rest : List (List Byte)) :
      Indexed (asciiBytes "ls") (path :: rest) fun d p => .cmdLs d p path
  | cat (filePath : List Byte) (rest : List (List Byte)) :
      Indexed (asciiBytes "cat") (filePath :: rest) fun d p => .cmdCat d p filePath
  | copy (src dst : List Byte) (rest : List (List Byte)) :
      Indexed (asciiBytes "export") (src :: dst :: rest) fun d p => .cmdExport d p src dst

inductive Invokes : List (List Byte) → Command → Prop
  | plain (program : List Byte) (rest : List (List Byte)) {cmd : List Byte} {command : Command}
      (h : Plain cmd command) : Invokes (program :: cmd :: rest) command
  | indexed (program : List Byte) {cmd disk part : List Byte} {rest : List (List Byte)}
      {command : UInt32 → UInt32 → Command} {d p : UInt32} (h : Indexed cmd rest command)
      (hd : Numeral disk d) (hp : Numeral part p) :
      Invokes (program :: cmd :: disk :: part :: rest) (command d p)

def Misnumbered (args : List (List Byte)) : Prop :=
  ∃ program cmd disk part rest command, args = program :: cmd :: disk :: part :: rest ∧
    Indexed cmd rest command ∧ ¬∃ d p, Numeral disk d ∧ Numeral part p

def commandLine (program : List Byte) : Command → List (List Byte)
  | .cmdScan => [program, asciiBytes "scan"]
  | .cmdMonitor => [program, asciiBytes "monitor"]
  | .cmdAuto => [program, asciiBytes "auto"]
  | .cmdMount d p target => [program, asciiBytes "mount", decimal d.toNat, decimal p.toNat, target]
  | .cmdLs d p path => [program, asciiBytes "ls", decimal d.toNat, decimal p.toNat, path]
  | .cmdCat d p filePath => [program, asciiBytes "cat", decimal d.toNat, decimal p.toNat, filePath]
  | .cmdExport d p src dst => [program, asciiBytes "export", decimal d.toNat, decimal p.toNat, src, dst]

section Numerals

variable {text blanks sign digits rest : List Byte} {n : UInt32}

theorem digit_plain : ∀ {c : Byte}, isDigit c = true → isSpace c = false ∧ c ≠ 0x2B ∧ c ≠ 0x2D :=
  fun {c} => forall_byte (P := fun c => isDigit c = true → isSpace c = false ∧ c ≠ 0x2B ∧ c ≠ 0x2D)
    (by decide +kernel) c

theorem takeWhile_digits (hdigit : ∀ c ∈ digits, isDigit c = true)
    (hstops : ∀ c ∈ rest.head?, isDigit c = false) : (digits ++ rest).takeWhile isDigit = digits := by
  rw [List.takeWhile_append_of_pos hdigit]
  cases rest with
  | nil => exact List.append_nil _
  | cons c cs =>
      rw [List.takeWhile_cons_of_neg (by rw [hstops c rfl]; exact Bool.false_ne_true), List.append_nil]

theorem dropWhile_stops (s : List Byte) : ∀ c ∈ (s.dropWhile isDigit).head?, isDigit c = false := by
  induction s with
  | nil => exact fun c hc => nomatch hc
  | cons d ds ih =>
      rw [List.dropWhile_cons]
      split
      · exact ih
      · rename_i hd
        intro c hc
        cases hc
        exact Bool.eq_false_iff.mpr hd

def unsigned (s : List Byte) : List Byte :=
  if s.head? == some 0x2B || s.head? == some 0x2D then s.tail else s

theorem stoul_eq (text : List Byte) : stoul text =
    if ((unsigned (text.dropWhile isSpace)).takeWhile isDigit).isEmpty then .error .invalidArgument
    else if digitsValue ((unsigned (text.dropWhile isSpace)).takeWhile isDigit) ≥ 2 ^ 32 then
      .error .outOfRange
    else .ok (signed ((text.dropWhile isSpace).head? == some 0x2D)
      (digitsValue ((unsigned (text.dropWhile isSpace)).takeWhile isDigit))) := rfl

theorem unsigned_split (s : List Byte) : ∃ sign, s = sign ++ unsigned s ∧
    (sign = [] ∨ sign = [0x2B] ∨ sign = [0x2D]) ∧ (s.head? == some 0x2D) = (sign == [0x2D]) := by
  cases s with
  | nil => exact ⟨[], rfl, Or.inl rfl, rfl⟩
  | cons c cs =>
      by_cases hplus : c = 0x2B
      · subst hplus
        exact ⟨[0x2B], rfl, Or.inr (Or.inl rfl), rfl⟩
      by_cases hminus : c = 0x2D
      · subst hminus
        exact ⟨[0x2D], rfl, Or.inr (Or.inr rfl), rfl⟩
      refine ⟨[], ?_, Or.inl rfl, ?_⟩
      · rw [unsigned, List.head?_cons, if_neg (by simp [hplus, hminus]), List.nil_append]
      · simp [hminus]

theorem Reads.unblanked (h : Reads text n blanks sign digits rest) :
    text.dropWhile isSpace = sign ++ (digits ++ rest) := by
  rw [h.split, List.dropWhile_append_of_pos h.blank]
  obtain ⟨d, ds, rfl⟩ := List.exists_cons_of_ne_nil h.nonempty
  obtain ⟨hspace, _⟩ := digit_plain (h.digit d List.mem_cons_self)
  rcases h.signs with rfl | rfl | rfl
  · exact List.dropWhile_cons_of_neg (by rw [hspace]; exact Bool.false_ne_true)
  · rfl
  · rfl

theorem Reads.unsigned (h : Reads text n blanks sign digits rest) :
    unsigned (sign ++ (digits ++ rest)) = digits ++ rest ∧
      ((sign ++ (digits ++ rest)).head? == some 0x2D) = (sign == [0x2D]) := by
  obtain ⟨d, ds, rfl⟩ := List.exists_cons_of_ne_nil h.nonempty
  obtain ⟨_, hplus, hminus⟩ := digit_plain (h.digit d List.mem_cons_self)
  rcases h.signs with rfl | rfl | rfl
  · refine ⟨if_neg ?_, ?_⟩
    · simp [hplus, hminus]
    · simp [hminus]
  · exact ⟨rfl, rfl⟩
  · exact ⟨rfl, rfl⟩

theorem stoul_eq_ok_iff : stoul text = .ok n ↔ Numeral text n := by
  rw [stoul_eq]
  constructor
  · intro h
    obtain ⟨sign, hsplit, hsigns, hnegative⟩ := unsigned_split (text.dropWhile isSpace)
    rw [hnegative] at h
    split_ifs at h with hempty hlarge
    refine ⟨text.takeWhile isSpace, sign, _, (unsigned (text.dropWhile isSpace)).dropWhile isDigit, ?_,
      fun c => List.mem_takeWhile_imp, hsigns, fun hnil => hempty (List.isEmpty_iff.mpr hnil),
      fun c => List.mem_takeWhile_imp, dropWhile_stops _, Nat.lt_of_not_le hlarge, (Except.ok.inj h).symm⟩
    rw [List.takeWhile_append_dropWhile, ← hsplit, List.takeWhile_append_dropWhile]
  · rintro ⟨blanks, sign, digits, rest, h⟩
    rw [h.unblanked, h.unsigned.1, h.unsigned.2, takeWhile_digits h.digit h.stops,
      if_neg (fun hempty => h.nonempty (List.isEmpty_iff.mp hempty)), if_neg (Nat.not_le.mpr h.fits), h.value]

theorem digitsValue_decimal (k : Nat) : digitsValue (decimal k) = k := by
  have hfold : ∀ (cs : List Char) (m : Nat), (∀ c ∈ cs, 48 ≤ c.toNat ∧ c.toNat ≤ 57) →
      (cs.map fun c => UInt8.ofNat c.toNat).foldl (fun n c => 10 * n + (c.toNat - 0x30)) m =
        Nat.ofDigitChars 10 cs m := by
    intro cs
    induction cs with
    | nil => exact fun m _ => rfl
    | cons c cs ih =>
        intro m hcs
        obtain ⟨hlo, hhi⟩ := hcs c List.mem_cons_self
        rw [List.map_cons, List.foldl_cons, ih _ fun d hd => hcs d (List.mem_cons_of_mem _ hd),
          Nat.ofDigitChars_cons, UInt8.toNat_ofNat_of_lt' (by simp only [UInt8.size]; omega)]
        rfl
  rw [digitsValue, decimal, hfold _ 0 fun c => digit_toNat, Nat.ofDigitChars_ten_toDigits]

theorem decimal_digits {k : Nat} : ∀ c ∈ decimal k, isDigit c = true := by
  intro c hc
  obtain ⟨d, hd, rfl⟩ := List.mem_map.mp hc
  obtain ⟨hlo, hhi⟩ := digit_toNat hd
  simp only [isDigit, Bool.and_eq_true, decide_eq_true_eq, UInt8.le_iff_toNat_le,
    UInt8.toNat_ofNat_of_lt' (show d.toNat < UInt8.size by simp only [UInt8.size]; omega)]
  exact ⟨hlo, hhi⟩

theorem decimal_numeral (n : UInt32) : Numeral (decimal n.toNat) n := by
  refine ⟨[], [], decimal n.toNat, [], ⟨by simp, by simp, Or.inl rfl, ?_, decimal_digits, by simp, ?_, ?_⟩⟩
  · exact fun h => Nat.toDigits_ne_nil (List.map_eq_nil_iff.mp h)
  · rw [digitsValue_decimal]
    exact n.toNat_lt
  · rw [digitsValue_decimal]
    exact UInt32.ofNat_toNat.symm

end Numerals

section Commands

variable {args : List (List Byte)} {command : Command}

theorem withIndices_runs {disk part : List Byte} {f : UInt32 → UInt32 → Command} :
    withIndices disk part f = .runs command ↔
      ∃ d p, Numeral disk d ∧ Numeral part p ∧ f d p = command := by
  simp only [← stoul_eq_ok_iff]
  rw [withIndices]
  cases hdisk : stoul disk with
  | error e => simp
  | ok d =>
      cases hpart : stoul part with
      | error e => simp
      | ok p => simp

theorem withIndices_exitCode (disk part : List Byte) (f : UInt32 → UInt32 → Command) :
    exitCode (withIndices disk part f) =
      if (stoul disk).isOk && (stoul part).isOk then some 0 else none := by
  rw [withIndices]
  cases stoul disk with
  | error e => rfl
  | ok d => cases stoul part <;> rfl

theorem isOk_iff {text : List Byte} : (stoul text).isOk = true ↔ ∃ n, Numeral text n := by
  simp only [← stoul_eq_ok_iff]
  cases stoul text with
  | error e => exact iff_of_false Bool.false_ne_true fun ⟨n, hn⟩ => nomatch hn
  | ok n => exact iff_of_true rfl ⟨n, rfl⟩

inductive Dispatch : List (List Byte) → Outcome → Prop
  | usage {args : List (List Byte)} (h : args.length < 2) : Dispatch args .usage
  | plain (program : List Byte) (rest : List (List Byte)) {cmd : List Byte} {command : Command}
      (h : Plain cmd command) : Dispatch (program :: cmd :: rest) (.runs command)
  | indexed (program disk part : List Byte) {cmd : List Byte} {rest : List (List Byte)}
      {command : UInt32 → UInt32 → Command} (h : Indexed cmd rest command) :
      Dispatch (program :: cmd :: disk :: part :: rest) (withIndices disk part command)
  | missing {args : List (List Byte)} (cmd : List Byte) : Dispatch args (.missing cmd)
  | unknown {args : List (List Byte)} (cmd : List Byte) : Dispatch args (.unknown cmd)

theorem main_dispatch (args : List (List Byte)) : Dispatch args (main args) := by
  rcases args with _ | ⟨program, _ | ⟨cmd, args⟩⟩
  · exact .usage (by decide)
  · exact .usage (Nat.lt_succ_self 1)
  by_cases hscan : cmd = asciiBytes "scan"
  · subst hscan
    exact .plain program args .scan
  by_cases hmonitor : cmd = asciiBytes "monitor"
  · subst hmonitor
    exact .plain program args .monitor
  by_cases hauto : cmd = asciiBytes "auto"
  · subst hauto
    exact .plain program args .auto
  by_cases hmount : cmd = asciiBytes "mount"
  · subst hmount
    rcases args with _ | ⟨disk, _ | ⟨part, _ | ⟨target, rest⟩⟩⟩
    · exact .missing _
    · exact .missing _
    · exact .indexed program disk part .mount
    · exact .indexed program disk part (.mountAt target rest)
  by_cases hls : cmd = asciiBytes "ls"
  · subst hls
    rcases args with _ | ⟨disk, _ | ⟨part, _ | ⟨path, rest⟩⟩⟩
    · exact .missing _
    · exact .missing _
    · exact .indexed program disk part .ls
    · exact .indexed program disk part (.lsAt path rest)
  by_cases hcat : cmd = asciiBytes "cat"
  · subst hcat
    rcases args with _ | ⟨disk, _ | ⟨part, _ | ⟨filePath, rest⟩⟩⟩
    · exact .missing _
    · exact .missing _
    · exact .missing _
    · exact .indexed program disk part (.cat filePath rest)
  by_cases hexport : cmd = asciiBytes "export"
  · subst hexport
    rcases args with _ | ⟨disk, _ | ⟨part, _ | ⟨src, _ | ⟨dst, rest⟩⟩⟩⟩
    · exact .missing _
    · exact .missing _
    · exact .missing _
    · exact .missing _
    · exact .indexed program disk part (.copy src dst rest)
  have hunknown : main (program :: cmd :: args) = .unknown cmd := by
    simp only [main, if_neg hscan, if_neg hmonitor, if_neg hauto, if_neg hmount, if_neg hls, if_neg hcat,
      if_neg hexport]
  rw [hunknown]
  exact .unknown cmd

theorem main_indexed (program disk part : List Byte) {cmd : List Byte} {rest : List (List Byte)}
    {command : UInt32 → UInt32 → Command} (h : Indexed cmd rest command) :
    main (program :: cmd :: disk :: part :: rest) = withIndices disk part command := by
  cases h <;> rfl

theorem main_runs_iff : main args = .runs command ↔ Invokes args command := by
  constructor
  · intro h
    have hdispatch := main_dispatch args
    rw [h] at hdispatch
    generalize houtcome : Outcome.runs command = outcome at hdispatch
    cases hdispatch with
    | usage _ => cases houtcome
    | plain program rest hplain =>
        cases houtcome
        exact .plain program rest hplain
    | indexed program disk part hindexed =>
        obtain ⟨d, p, hd, hp, rfl⟩ := withIndices_runs.mp houtcome.symm
        exact .indexed program hindexed hd hp
    | missing _ => cases houtcome
    | unknown _ => cases houtcome
  · intro h
    cases h with
    | plain program rest hplain => cases hplain <;> rfl
    | indexed program hindexed hd hp =>
        rw [main_indexed program _ _ hindexed]
        exact withIndices_runs.mpr ⟨_, _, hd, hp, rfl⟩

theorem commandLine_invokes (program : List Byte) (command : Command) :
    Invokes (commandLine program command) command := by
  cases command with
  | cmdScan => exact .plain program [] .scan
  | cmdMonitor => exact .plain program [] .monitor
  | cmdAuto => exact .plain program [] .auto
  | cmdMount d p target =>
      exact .indexed program (.mountAt target []) (decimal_numeral d) (decimal_numeral p)
  | cmdLs d p path => exact .indexed program (.lsAt path []) (decimal_numeral d) (decimal_numeral p)
  | cmdCat d p filePath => exact .indexed program (.cat filePath []) (decimal_numeral d) (decimal_numeral p)
  | cmdExport d p src dst => exact .indexed program (.copy src dst []) (decimal_numeral d) (decimal_numeral p)

theorem aborts_iff : exitCode (main args) = none ↔ Misnumbered args := by
  constructor
  · intro h
    have hdispatch := main_dispatch args
    generalize main args = outcome at h hdispatch
    cases hdispatch with
    | usage _ => cases h
    | plain _ _ _ => cases h
    | indexed program disk part hindexed =>
        rw [withIndices_exitCode] at h
        refine ⟨program, _, disk, part, _, _, rfl, hindexed, fun ⟨d, p, hd, hp⟩ => ?_⟩
        rw [isOk_iff.mpr ⟨d, hd⟩, isOk_iff.mpr ⟨p, hp⟩] at h
        cases h
    | missing _ => cases h
    | unknown _ => cases h
  · rintro ⟨program, cmd, disk, part, rest, command, rfl, hindexed, hnumbers⟩
    rw [main_indexed program disk part hindexed, withIndices_exitCode, if_neg]
    rw [Bool.and_eq_true, isOk_iff, isOk_iff]
    exact fun ⟨⟨d, hd⟩, p, hp⟩ => hnumbers ⟨d, p, hd, hp⟩

theorem succeeds_iff : exitCode (main args) = some 0 ↔ args.length < 2 ∨ ∃ command, Invokes args command := by
  simp only [← main_runs_iff]
  constructor
  · intro h
    have hdispatch := main_dispatch args
    generalize main args = outcome at h hdispatch ⊢
    cases hdispatch with
    | usage hshort => exact Or.inl hshort
    | plain _ _ _ => exact Or.inr ⟨_, rfl⟩
    | indexed _ disk part hindexed =>
        rw [withIndices_exitCode] at h
        split_ifs at h with hok
        obtain ⟨hdisk, hpart⟩ := Bool.and_eq_true_iff.mp hok
        obtain ⟨d, hd⟩ := isOk_iff.mp hdisk
        obtain ⟨p, hp⟩ := isOk_iff.mp hpart
        exact Or.inr ⟨_, withIndices_runs.mpr ⟨d, p, hd, hp, rfl⟩⟩
    | missing _ => cases h
    | unknown _ => cases h
  · rintro (hshort | ⟨command, h⟩)
    · rcases args with _ | ⟨program, _ | ⟨cmd, args⟩⟩
      · rfl
      · rfl
      · rw [List.length_cons, List.length_cons] at hshort
        omega
    · rw [h]
      rfl

end Commands

/-- Every command has its command line, in which a partition has the number that a scan
shows. A command line runs the command that it is one of and no other; without a command it
returns 1, and a number that is none ends the process. -/
theorem commandLine_parses : (∀ program command, main (commandLine program command) = .runs command) ∧
    ∀ args, (∀ command, main args = .runs command ↔ Invokes args command) ∧
      (exitCode (main args) = some 0 ↔ args.length < 2 ∨ ∃ command, Invokes args command) ∧
      (exitCode (main args) = none ↔ Misnumbered args) :=
  ⟨fun program command => main_runs_iff.mpr (commandLine_invokes program command),
    fun _ => ⟨fun _ => main_runs_iff, succeeds_iff, aborts_iff⟩⟩

example : main [[], asciiBytes "cat", asciiBytes " -1", asciiBytes "2nd", asciiBytes "/etc/fstab"] =
    .runs (.cmdCat 4294967295 2 (asciiBytes "/etc/fstab")) := by decide +kernel

end Linux2Win.CommandLine
