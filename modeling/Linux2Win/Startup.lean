import Linux2Win.DirEnum
import Linux2Win.MountDirs
import Linux2Win.Runs

namespace Linux2Win.Startup

open DirEnum MountDirs Runs

structure Config where
  permissionPromptShown : Option UInt32
  startupEnabled : Option UInt32
  deriving DecidableEq

/-- What Windows keeps of the program: the command of the task for logons, the value in the
`Run` key with its terminator, the program's own key, the shortcuts and the entry in the
list of programs, the mount root, and what the installer has enabled and copied. -/
structure Setup where
  task : Option WString
  runValue : Option WString
  config : Option Config
  desktopLink : Option WString
  programsLink : Option WString
  daemonLink : Option WString
  uninstallEntry : Option (List (WString × WString))
  mountRoot : Bool
  projFs : Bool
  files : List WString
  deriving DecidableEq

def clean : Setup := ⟨none, none, none, none, none, none, none, false, false, []⟩

def startCommand (executablePath : WString) : WString :=
  wide "\"" ++ executablePath ++ wide "\" --daemon"

def mountRootPath : WString := wide "C:\\LinuxDisks"

/-- The calls of a read of the settings that come back. A query is without success where
its value is missing or too long for the buffer, and else comes back with its key. -/
structure ReadCalls where
  opensRun : Bool
  opensConfig : Bool

/-- The buffer has room for `MAX_PATH` units, and it is filled with zeros before. -/
def readsText (data : WString) : Bool :=
  decide (data.length ≤ 260) && data.head?.any (· != 0)

def isStartupEnabled (c : ReadCalls) (s : Setup) : Bool :=
  (c.opensRun && s.runValue.any readsText) ||
    (c.opensConfig && s.config.any fun config => config.startupEnabled == some 1)

def writeEnabled (creates sets : Bool) (enabled : UInt32) (s : Setup) : Setup :=
  if creates then
    let config := s.config.getD ⟨none, none⟩
    { s with config := some (if sets then { config with startupEnabled := some enabled } else config) }
  else s

/-- The calls of `enable_startup` that succeed; `createsTask` stands for the run of `schtasks`. -/
structure EnableCalls where
  createsTask : Bool
  createsRun : Bool
  setsRun : Bool
  createsConfig : Bool
  setsEnabled : Bool

def enableStartup (c : EnableCalls) (executablePath : WString) (s : Setup) : Setup :=
  let command := startCommand executablePath
  let s := if c.createsTask then { s with task := some command } else s
  let s := if c.createsRun && c.setsRun then { s with runValue := some (command ++ [0]) } else s
  writeEnabled c.createsConfig c.setsEnabled 1 s

structure DisableCalls where
  deletesTask : Bool
  opensRun : Bool
  deletesRun : Bool
  createsConfig : Bool
  setsEnabled : Bool

def disableStartup (c : DisableCalls) (s : Setup) : Setup :=
  let s := if c.deletesTask then { s with task := none } else s
  let s := if c.opensRun && c.deletesRun then { s with runValue := none } else s
  writeEnabled c.createsConfig c.setsEnabled 0 s

/-- The mount root can be made, and each link can be saved in its folder. -/
structure LinkCalls where
  createsRoot : Bool
  savesDesktop : Bool
  savesPrograms : Bool

def ensureMountRootExists (createsRoot : Bool) (s : Setup) : Setup :=
  { s with mountRoot := s.mountRoot || createsRoot }

def createExplorerShortcuts (c : LinkCalls) (s : Setup) : Setup :=
  let s := ensureMountRootExists c.createsRoot s
  { s with
    desktopLink := if c.savesDesktop then some mountRootPath else s.desktopLink
    programsLink := if c.savesPrograms then some mountRootPath else s.programsLink }

inductive PermissionResult
  | granted | denied | alreadyConfigured
  deriving DecidableEq

structure PromptCalls where
  opensConfig : Bool
  createsConfig : Bool
  setsShown : Bool
  setsEnabled : Bool
  enable : EnableCalls
  disable : DisableCalls
  links : LinkCalls

def configured (c : PromptCalls) (s : Setup) : Bool :=
  c.opensConfig && s.config.any fun config => config.permissionPromptShown == some 1

def savePrompt (c : PromptCalls) (yes : Bool) (s : Setup) : Setup :=
  if c.createsConfig then
    let config := s.config.getD ⟨none, none⟩
    let config := if c.setsShown then { config with permissionPromptShown := some 1 } else config
    let enabled := if yes then 1 else 0
    { s with
      config := some (if c.setsEnabled then { config with startupEnabled := some enabled } else config) }
  else s

def promptUserPermission (c : PromptCalls) (forcePrompt yes : Bool) (exePath : WString) (s : Setup) :
    PermissionResult × Setup :=
  if !forcePrompt && configured c s then (.alreadyConfigured, s)
  else
    let s := savePrompt c yes s
    if yes then (.granted, createExplorerShortcuts c.links (enableStartup c.enable exePath s))
    else (.denied, disableStartup c.disable s)

def occursIn (pattern text : WString) : Bool := text.tails.any fun rest => pattern.isPrefixOf rest

def quietMode (cmdline : WString) : Bool :=
  occursIn (wide "--quiet") cmdline || occursIn (wide "--daemon") cmdline

structure StartCalls where
  createsRoot : Bool
  links : LinkCalls
  prompt : PromptCalls

/-- What `wWinMain` of the daemon does to the setup. -/
def startDaemon (c : StartCalls) (cmdline : WString) (yes : Bool) (exePath : WString) (s : Setup) :
    Setup :=
  let s := createExplorerShortcuts c.links (ensureMountRootExists c.createsRoot s)
  if quietMode cmdline then s else (promptUserPermission c.prompt false yes exePath s).2

/-- A file beside the installer: it is not there, or its copy succeeds or throws. -/
inductive Copy
  | absent | copied | throws
  deriving DecidableEq

structure Options where
  startup : Bool
  shortcuts : Bool
  projFs : Bool

structure InstallCalls where
  createsDirectories : Bool
  copies : WString → Copy
  copiesSelf : Bool
  enablesProjFs : Bool
  links : LinkCalls
  savesDaemonLink : Bool
  enable : EnableCalls
  disable : DisableCalls
  createsEntry : Bool
  setsValue : WString → Bool

def inDirectory (dir file : WString) : WString :=
  match dir.getLast? with
  | none => file
  | some c => if wideSeparator c || (dir.length == 2 && c == 0x3A) then dir ++ file else dir ++ 0x5C :: file

def copyFile (path : WString) (s : Setup) : Setup := { s with files := s.files.insert path }

def copyFiles (copies : WString → Copy) (targetDir : WString) : List WString → Setup → Bool × Setup
  | [], s => (true, s)
  | file :: files, s =>
    match copies file with
    | .absent => copyFiles copies targetDir files s
    | .copied => copyFiles copies targetDir files (copyFile (inDirectory targetDir file) s)
    | .throws => (false, s)

def filesToCopy : List WString :=
  [wide "linux2win.exe", wide "linux2win_daemon.exe", wide "README.md"]

def entryValues (targetDir : WString) : List (WString × WString) :=
  [(wide "DisplayName", wide "Linux2Win (Linux Disk Auto-Detector & Windows Folder VFS)"),
    (wide "UninstallString",
      wide "\"" ++ inDirectory targetDir (wide "uninstall.exe") ++ wide "\" /uninstall"),
    (wide "DisplayVersion", wide "1.0.0"), (wide "Publisher", wide "Linux2Win"),
    (wide "InstallLocation", targetDir)]

def registerProgram (c : InstallCalls) (targetDir : WString) (s : Setup) : Setup :=
  if c.createsEntry then
    let values := (entryValues targetDir).filter fun value => c.setsValue value.1
    let kept := (s.uninstallEntry.getD []).filter fun value => !(values.any fun v => v.1 == value.1)
    { s with uninstallEntry := some (values ++ kept) }
  else s

def daemonPath (targetDir : WString) : WString := inDirectory targetDir (wide "linux2win_daemon.exe")

def setUpShortcuts (c : InstallCalls) (targetDir : WString) (opts : Options) (s : Setup) : Setup :=
  let s := { s with projFs := s.projFs || (opts.projFs && c.enablesProjFs) }
  if opts.shortcuts then
    let s := createExplorerShortcuts c.links s
    { s with daemonLink := if c.savesDaemonLink then some (daemonPath targetDir) else s.daemonLink }
  else s

/-- What the installer does once its files are copied, up to the launch of the daemon. -/
def configureInstallation (c : InstallCalls) (targetDir : WString) (opts : Options) (s : Setup) : Setup :=
  let s := setUpShortcuts c targetDir opts s
  let s := if opts.startup then enableStartup c.enable (daemonPath targetDir) s
    else disableStartup c.disable s
  registerProgram c targetDir s

/-- The result, and what is left of an installation that an exception ends. -/
def performInstallation (c : InstallCalls) (targetDir : WString) (opts : Options) (s : Setup) :
    Bool × Setup :=
  if !c.createsDirectories then (false, s)
  else
    let (ok, s) := copyFiles c.copies targetDir filesToCopy s
    if !ok then (false, s)
    else if !c.copiesSelf then (false, s)
    else
      let s := copyFile (inDirectory targetDir (wide "uninstall.exe")) s
      (true, configureInstallation c targetDir opts s)

/-- The removal of a link: its folder is not known, it is gone, or an exception is thrown. -/
inductive Removal
  | noFolder | removed | throws
  deriving DecidableEq

structure UninstallCalls where
  disable : DisableCalls
  desktop : Removal
  programs : Removal
  daemon : Removal
  deletesEntry : Bool
  deletesConfig : Bool

def removeLink (r : Removal) (clear : Setup → Setup) (next : Setup → Bool × Setup) (s : Setup) :
    Bool × Setup :=
  match r with
  | .noFolder => next s
  | .removed => next (clear s)
  | .throws => (false, s)

/-- The exceptions of the removals are not caught; false is for an end through one of them. -/
def performUninstallation (c : UninstallCalls) (yes : Bool) (s : Setup) : Bool × Setup :=
  if !yes then (true, s)
  else
    (removeLink c.desktop fun s => { s with desktopLink := none }) (
      (removeLink c.programs fun s => { s with programsLink := none }) (
        (removeLink c.daemon fun s => { s with daemonLink := none }) fun s =>
          (true, { s with
            uninstallEntry := if c.deletesEntry then none else s.uninstallEntry
            config := if c.deletesConfig then none else s.config })))
      (disableStartup c.disable s)

/-- What is done to the setup: by a daemon that starts or by its menu, and by the installer. -/
inductive Op
  | start (c : StartCalls) (cmdline : WString) (yes : Bool) (exePath : WString)
  | toggle (newState : Bool) (enable : EnableCalls) (disable : DisableCalls) (exePath : WString)
  | install (c : InstallCalls) (targetDir : WString) (opts : Options)
  | uninstall (c : UninstallCalls) (yes : Bool)

def step (s : Setup) : Op → Setup
  | .start c cmdline yes exePath => startDaemon c cmdline yes exePath s
  | .toggle newState enable disable exePath =>
      if newState then enableStartup enable exePath s else disableStartup disable s
  | .install c targetDir opts => (performInstallation c targetDir opts s).2
  | .uninstall c yes => (performUninstallation c yes s).2

def run (s : Setup) (ops : List Op) : Setup := ops.foldl step s

def isEnabled (s : Setup) : Bool := s.config.any fun config => config.startupEnabled == some 1

def isShown (s : Setup) : Bool := s.config.any fun config => config.permissionPromptShown == some 1

/-- The program that the user has chosen to start at logons, where an operation comes to a
choice: the inner none is the choice of no start. -/
def choice (s : Setup) : Op → Option (Option WString)
  | .start c cmdline yes exePath =>
      if quietMode cmdline || configured c.prompt s then none else some (if yes then some exePath else none)
  | .toggle newState _ _ exePath => some (if newState then some exePath else none)
  | .install c targetDir opts =>
      if (performInstallation c targetDir opts s).1 then
        some (if opts.startup then some (daemonPath targetDir) else none)
      else none
  | .uninstall _ yes => if yes then some none else none

def lastChoice (chosen : Option WString) : Setup → List Op → Option WString
  | _, [] => chosen
  | s, op :: ops => lastChoice ((choice s op).getD chosen) (step s op) ops

/-- The task, the value in the `Run` key and the flag all stand for the same choice. -/
structure Registered (chosen : Option WString) (s : Setup) : Prop where
  task : s.task = chosen.map startCommand
  run : s.runValue = chosen.map fun exePath => startCommand exePath ++ [0]
  enabled : isEnabled s = chosen.isSome

def EnableCalls.Succeed (c : EnableCalls) : Prop :=
  c.createsTask = true ∧ c.createsRun = true ∧ c.setsRun = true ∧ c.createsConfig = true ∧
    c.setsEnabled = true

def DisableCalls.Succeed (c : DisableCalls) : Prop :=
  c.deletesTask = true ∧ c.opensRun = true ∧ c.deletesRun = true ∧ c.createsConfig = true ∧
    c.setsEnabled = true

def Op.Succeeds : Op → Prop
  | .start c _ _ _ => c.prompt.enable.Succeed ∧ c.prompt.disable.Succeed
  | .toggle _ enable disable _ => enable.Succeed ∧ disable.Succeed
  | .install c _ _ => c.enable.Succeed ∧ c.disable.Succeed
  | .uninstall c _ => c.disable.Succeed

section Operations

variable (s : Setup)

theorem writeEnabled_shown (creates sets : Bool) (enabled : UInt32) :
    isShown (writeEnabled creates sets enabled s) = isShown s := by
  cases creates with
  | false => rfl
  | true => cases hs : s.config <;> cases sets <;> simp [isShown, writeEnabled, hs]

theorem enableStartup_shown (c : EnableCalls) (exePath : WString) :
    isShown (enableStartup c exePath s) = isShown s := by
  rw [enableStartup, writeEnabled_shown]
  split <;> split <;> rfl

theorem disableStartup_shown (c : DisableCalls) : isShown (disableStartup c s) = isShown s := by
  rw [disableStartup, writeEnabled_shown]
  split <;> split <;> rfl

theorem enableStartup_registered {c : EnableCalls} (h : c.Succeed) (exePath : WString) :
    Registered (some exePath) (enableStartup c exePath s) := by
  obtain ⟨htask, hrun, hset, hconfig, henabled⟩ := h
  rw [enableStartup, writeEnabled, htask, hrun, hset, hconfig, henabled]
  exact ⟨rfl, rfl, rfl⟩

theorem disableStartup_registered {c : DisableCalls} (h : c.Succeed) :
    Registered none (disableStartup c s) := by
  obtain ⟨htask, hrun, hset, hconfig, henabled⟩ := h
  rw [disableStartup, writeEnabled, htask, hrun, hset, hconfig, henabled]
  exact ⟨rfl, rfl, rfl⟩

theorem disableStartup_eq (c : DisableCalls) : disableStartup c s = { s with
    task := if c.deletesTask then none else s.task
    runValue := if c.opensRun && c.deletesRun then none else s.runValue
    config := (writeEnabled c.createsConfig c.setsEnabled 0 s).config } := by
  unfold disableStartup writeEnabled
  split <;> split <;> split <;> rfl

theorem writeEnabled_config_none {creates sets : Bool} {enabled : UInt32} :
    (writeEnabled creates sets enabled s).config = none ↔ creates = false ∧ s.config = none := by
  cases creates with
  | false => simp [writeEnabled]
  | true => simp [writeEnabled]

theorem registerProgram_eq (c : InstallCalls) (targetDir : WString) :
    ∃ entry, registerProgram c targetDir s = { s with uninstallEntry := entry } := by
  unfold registerProgram
  split
  · exact ⟨_, rfl⟩
  · exact ⟨s.uninstallEntry, rfl⟩

theorem copyFiles_files (copies : WString → Copy) (targetDir : WString) (files : List WString) :
    ∃ copied, (copyFiles copies targetDir files s).2 = { s with files := copied } := by
  induction files generalizing s with
  | nil => exact ⟨s.files, rfl⟩
  | cons file files ih =>
      rw [copyFiles]
      cases copies file with
      | absent => exact ih s
      | copied => exact ih (copyFile (inDirectory targetDir file) s)
      | throws => exact ⟨s.files, rfl⟩

theorem performInstallation_cases (c : InstallCalls) (targetDir : WString) (opts : Options) :
    ∃ copied, performInstallation c targetDir opts s = (false, { s with files := copied }) ∨
      performInstallation c targetDir opts s =
        (true, configureInstallation c targetDir opts { s with files := copied }) := by
  unfold performInstallation
  split
  · exact ⟨s.files, Or.inl rfl⟩
  · obtain ⟨copied, hcopied⟩ := copyFiles_files s c.copies targetDir filesToCopy
    dsimp only
    rw [hcopied]
    split
    · exact ⟨copied, Or.inl rfl⟩
    · split
      · exact ⟨copied, Or.inl rfl⟩
      · exact ⟨_, Or.inr rfl⟩

end Operations

def UninstallCalls.completes (c : UninstallCalls) : Bool :=
  c.desktop != .throws && c.programs != .throws && c.daemon != .throws

/-- A removal that throws keeps all that comes behind it from being removed. -/
theorem performUninstallation_eq (c : UninstallCalls) (s : Setup) :
    performUninstallation c true s = (c.completes,
      { disableStartup c.disable s with
        desktopLink := if c.desktop = .removed then none else s.desktopLink
        programsLink :=
          if c.desktop ≠ .throws ∧ c.programs = .removed then none else s.programsLink
        daemonLink :=
          if c.desktop ≠ .throws ∧ c.programs ≠ .throws ∧ c.daemon = .removed then none
          else s.daemonLink
        uninstallEntry := if c.completes && c.deletesEntry then none else s.uninstallEntry
        config := if c.completes && c.deletesConfig then none
          else (disableStartup c.disable s).config }) := by
  unfold performUninstallation UninstallCalls.completes
  rw [disableStartup_eq]
  cases c.desktop <;> cases c.programs <;> cases c.daemon <;> rfl

section Registrations

variable {s s' : Setup} {chosen : Option WString}

theorem Registered.of_eq (h : Registered chosen s) (htask : s'.task = s.task)
    (hrun : s'.runValue = s.runValue) (hconfig : s'.config = s.config) : Registered chosen s' where
  task := htask.trans h.task
  run := hrun.trans h.run
  enabled := by rw [isEnabled, hconfig, ← isEnabled, h.enabled]

theorem configureInstallation_registered {c : InstallCalls} (henable : c.enable.Succeed)
    (hdisable : c.disable.Succeed) (targetDir : WString) (opts : Options) (s : Setup) :
    Registered (if opts.startup then some (daemonPath targetDir) else none)
      (configureInstallation c targetDir opts s) := by
  rw [configureInstallation]
  cases opts.startup with
  | true =>
      obtain ⟨entry, hentry⟩ := registerProgram_eq
        (enableStartup c.enable (daemonPath targetDir) (setUpShortcuts c targetDir opts s)) c targetDir
      have henabled := enableStartup_registered (setUpShortcuts c targetDir opts s) henable
        (daemonPath targetDir)
      exact hentry ▸ henabled.of_eq rfl rfl rfl
  | false =>
      obtain ⟨entry, hentry⟩ := registerProgram_eq
        (disableStartup c.disable (setUpShortcuts c targetDir opts s)) c targetDir
      have hdisabled := disableStartup_registered (setUpShortcuts c targetDir opts s) hdisable
      exact hentry ▸ hdisabled.of_eq rfl rfl rfl

theorem step_registered (h : Registered chosen s) {op : Op} (hop : op.Succeeds) :
    Registered ((choice s op).getD chosen) (step s op) := by
  cases op with
  | start c cmdline yes exePath =>
      have hlinks : Registered chosen (createExplorerShortcuts c.links
        (ensureMountRootExists c.createsRoot s)) := h.of_eq rfl rfl rfl
      have hconfigured : configured c.prompt (createExplorerShortcuts c.links
        (ensureMountRootExists c.createsRoot s)) = configured c.prompt s := rfl
      rw [step, startDaemon, choice, promptUserPermission, hconfigured]
      cases quietMode cmdline with
      | true => exact hlinks
      | false =>
          cases configured c.prompt s with
          | true => exact hlinks
          | false =>
              cases yes with
              | true => exact (enableStartup_registered _ hop.1 exePath).of_eq rfl rfl rfl
              | false => exact disableStartup_registered _ hop.2
  | toggle newState enable disable exePath =>
      cases newState with
      | true => exact enableStartup_registered s hop.1 exePath
      | false => exact disableStartup_registered s hop.2
  | install c targetDir opts =>
      obtain ⟨copied, hrun | hrun⟩ := performInstallation_cases s c targetDir opts
      · rw [step, choice, hrun]
        exact h.of_eq rfl rfl rfl
      · rw [step, choice, hrun]
        exact configureInstallation_registered hop.1 hop.2 targetDir opts _
  | uninstall c yes =>
      cases yes with
      | false => exact h
      | true =>
          have hgone := disableStartup_registered s hop
          rw [step, performUninstallation_eq]
          cases hdeletes : c.completes && c.deletesConfig with
          | true => exact ⟨hgone.task, hgone.run, rfl⟩
          | false => exact hgone.of_eq rfl rfl rfl

theorem run_registered (h : Registered chosen s) {ops : List Op} (hops : ∀ op ∈ ops, op.Succeeds) :
    Registered (lastChoice chosen s ops) (run s ops) := by
  induction ops generalizing s chosen with
  | nil => exact h
  | cons op ops ih =>
      obtain ⟨hop, hops⟩ := List.forall_mem_cons.mp hops
      exact ih (step_registered h hop) hops

theorem Registered.isStartupEnabled (h : Registered chosen s) {c : ReadCalls}
    (hc : c.opensConfig = true) : isStartupEnabled c s = chosen.isSome := by
  have henabled := h.enabled
  rw [isEnabled] at henabled
  rw [Startup.isStartupEnabled, hc, henabled, h.run]
  cases chosen with
  | none => simp
  | some exePath => simp

end Registrations

/-- After every run in which the calls that register the program succeed, the task, the `Run`
key and the flag stand for the user's last choice, which is what the menu shows. -/
theorem registrations_follow_choices (s : Setup) (chosen : Option WString) (h : Registered chosen s)
    (ops : List Op) (hops : ∀ op ∈ ops, op.Succeeds) :
    Registered (lastChoice chosen s ops) (run s ops) ∧
      ∀ c : ReadCalls, c.opensConfig = true →
        isStartupEnabled c (run s ops) = (lastChoice chosen s ops).isSome :=
  ⟨run_registered h hops, fun _ hc => (run_registered h hops).isStartupEnabled hc⟩

def enabling : EnableCalls := ⟨true, true, true, true, true⟩

def disabling : DisableCalls := ⟨true, true, true, true, true⟩

def installing : InstallCalls :=
  ⟨true, fun _ => .copied, true, true, ⟨true, true, true⟩, true, enabling, disabling, true, fun _ => true⟩

def installed : List Op := [.install installing (wide "C:\\Linux2Win") ⟨true, true, true⟩]

def installedThenOff : List Op := installed ++ [.toggle false enabling disabling []]

theorem installedThenOff_succeeds : ∀ op ∈ installedThenOff, op.Succeeds := by
  have hcalls : enabling.Succeed ∧ disabling.Succeed :=
    ⟨⟨rfl, rfl, rfl, rfl, rfl⟩, rfl, rfl, rfl, rfl, rfl⟩
  intro op hop
  rcases List.mem_cons.mp hop with rfl | hop
  · exact hcalls
  · rw [List.mem_singleton.mp hop]
    exact hcalls

/-- The choice of the installation, and its end by the menu. -/
theorem registrations_follow_choices_toggled :
    (Registered (some (daemonPath (wide "C:\\Linux2Win"))) (run clean installed) ∧
      ∀ c : ReadCalls, c.opensConfig = true → isStartupEnabled c (run clean installed) = true) ∧
    Registered none (run clean installedThenOff) ∧
      ∀ c : ReadCalls, c.opensConfig = true →
        isStartupEnabled c (run clean installedThenOff) = false :=
  ⟨registrations_follow_choices clean none ⟨rfl, rfl, rfl⟩ installed fun op hop =>
      installedThenOff_succeeds op (List.mem_append_left _ hop),
    registrations_follow_choices clean none ⟨rfl, rfl, rfl⟩ installedThenOff installedThenOff_succeeds⟩

section Consent

/-- Nothing starts the program at a logon, and it does not say that something would. -/
structure Silent (s : Setup) : Prop where
  task : s.task = none
  run : s.runValue = none
  enabled : isEnabled s = false

variable {s : Setup}

theorem disableStartup_silent (h : Silent s) (c : DisableCalls) : Silent (disableStartup c s) := by
  rw [disableStartup_eq]
  refine ⟨?_, ?_, ?_⟩
  · exact (ite_eq_left_iff.mpr fun _ => h.task : (if c.deletesTask then none else s.task) = none)
  · exact (ite_eq_left_iff.mpr fun _ => h.run :
      (if c.opensRun && c.deletesRun then none else s.runValue) = none)
  · have henabled := h.enabled
    cases hconfig : s.config <;> cases hc : c.createsConfig <;> cases c.setsEnabled <;>
      simp_all [isEnabled, writeEnabled]

theorem savePrompt_silent (h : Silent s) (c : PromptCalls) : Silent (savePrompt c false s) := by
  have henabled := h.enabled
  unfold savePrompt
  split
  · refine ⟨h.task, h.run, ?_⟩
    cases hconfig : s.config <;> cases c.setsShown <;> cases c.setsEnabled <;>
      simp_all [isEnabled]
  · exact h

theorem configureInstallation_silent (h : Silent s) (c : InstallCalls) (targetDir : WString)
    {opts : Options} (hopts : opts.startup = false) :
    Silent (configureInstallation c targetDir opts s) := by
  have hlinks : Silent (setUpShortcuts c targetDir opts s) := by
    unfold setUpShortcuts
    split
    · exact ⟨h.task, h.run, h.enabled⟩
    · exact ⟨h.task, h.run, h.enabled⟩
  have hdisabled := disableStartup_silent hlinks c.disable
  obtain ⟨entry, hentry⟩ := registerProgram_eq
    (disableStartup c.disable (setUpShortcuts c targetDir opts s)) c targetDir
  rw [configureInstallation, hopts]
  exact hentry ▸ ⟨hdisabled.task, hdisabled.run, hdisabled.enabled⟩

theorem step_silent (h : Silent s) {op : Op} (hop : ∀ exePath, choice s op ≠ some (some exePath)) :
    Silent (step s op) := by
  cases op with
  | start c cmdline yes exePath =>
      have hlinks : Silent (createExplorerShortcuts c.links (ensureMountRootExists c.createsRoot s)) :=
        ⟨h.task, h.run, h.enabled⟩
      have hconfigured : configured c.prompt (createExplorerShortcuts c.links
        (ensureMountRootExists c.createsRoot s)) = configured c.prompt s := rfl
      rw [choice] at hop
      rw [step, startDaemon, promptUserPermission, hconfigured]
      cases hquiet : quietMode cmdline with
      | true => exact hlinks
      | false =>
          cases hknown : configured c.prompt s with
          | true => exact hlinks
          | false =>
              cases yes with
              | true =>
                  rw [hquiet, hknown] at hop
                  exact absurd rfl (hop exePath)
              | false => exact disableStartup_silent (savePrompt_silent hlinks c.prompt) _
  | toggle newState enable disable exePath =>
      cases newState with
      | true => exact absurd rfl (hop exePath)
      | false => exact disableStartup_silent h disable
  | install c targetDir opts =>
      obtain ⟨copied, hrun | hrun⟩ := performInstallation_cases s c targetDir opts
      · rw [step, hrun]
        exact ⟨h.task, h.run, h.enabled⟩
      · rw [choice, hrun] at hop
        rw [step, hrun]
        cases hstartup : opts.startup with
        | true =>
            rw [hstartup] at hop
            exact absurd rfl (hop _)
        | false =>
            have hcopied : Silent { s with files := copied } := ⟨h.task, h.run, h.enabled⟩
            exact configureInstallation_silent hcopied c targetDir hstartup
  | uninstall c yes =>
      cases yes with
      | false => exact h
      | true =>
          have hgone := disableStartup_silent h c.disable
          rw [step, performUninstallation_eq]
          cases hdeletes : c.completes && c.deletesConfig with
          | true => exact ⟨hgone.task, hgone.run, rfl⟩
          | false => exact ⟨hgone.task, hgone.run, hgone.enabled⟩

end Consent

/-- Whatever calls fail, nothing starts the program at a logon before the user has chosen so. -/
theorem never_starts_unasked (s : Setup) (h : Silent s) (ops : List Op)
    (hops : Each step (fun s op => ∀ exePath, choice s op ≠ some (some exePath)) s ops) :
    Silent (run s ops) := by
  induction ops generalizing s with
  | nil => exact h
  | cons op ops ih => exact ih _ (step_silent h hops.1) hops.2

theorem never_starts_unasked_declined :
    Silent (run clean [.toggle false enabling ⟨false, false, false, true, false⟩ [],
      .uninstall ⟨⟨false, false, false, true, true⟩, .throws, .removed, .removed, true, true⟩ true]) :=
  never_starts_unasked clean ⟨rfl, rfl, rfl⟩ _
    ⟨fun _ => by simp [choice], fun _ => by simp [choice], trivial⟩

section Prompts

def prompts (s : Setup) : Op → Nat
  | .start c cmdline _ _ => if quietMode cmdline || configured c.prompt s then 0 else 1
  | .toggle .. | .install .. | .uninstall .. => 0

/-- How often an operation loses the note that the user has been asked, or does not find
or make it. -/
def lapses : Op → Nat
  | .start c _ _ _ =>
      if c.prompt.opensConfig && c.prompt.createsConfig && c.prompt.setsShown then 0 else 1
  | .toggle .. | .install .. => 0
  | .uninstall c yes => if yes && c.completes && c.deletesConfig then 1 else 0

def unasked (s : Setup) : Nat := if isShown s then 0 else 1

def promptCount : Setup → List Op → Nat
  | _, [] => 0
  | s, op :: ops => prompts s op + promptCount (step s op) ops

theorem savePrompt_shown (c : PromptCalls) (yes : Bool) (s : Setup) :
    isShown (savePrompt c yes s) = (isShown s || (c.createsConfig && c.setsShown)) := by
  unfold savePrompt
  cases c.createsConfig with
  | false => simp
  | true => cases hs : s.config <;> cases c.setsShown <;> cases c.setsEnabled <;> simp [isShown, hs]

theorem configureInstallation_shown (c : InstallCalls) (targetDir : WString) (opts : Options)
    (s : Setup) : isShown (configureInstallation c targetDir opts s) = isShown s := by
  have hlinks : isShown (setUpShortcuts c targetDir opts s) = isShown s := by
    unfold setUpShortcuts
    split <;> rfl
  rw [configureInstallation]
  cases opts.startup with
  | true =>
      obtain ⟨entry, hentry⟩ := registerProgram_eq
        (enableStartup c.enable (daemonPath targetDir) (setUpShortcuts c targetDir opts s)) c targetDir
      exact hentry ▸ (enableStartup_shown _ c.enable _).trans hlinks
  | false =>
      obtain ⟨entry, hentry⟩ := registerProgram_eq
        (disableStartup c.disable (setUpShortcuts c targetDir opts s)) c targetDir
      exact hentry ▸ (disableStartup_shown _ c.disable).trans hlinks

theorem promptUserPermission_shown {c : PromptCalls} {s : Setup} (h : configured c s = false) (yes : Bool)
    (exePath : WString) : isShown (promptUserPermission c false yes exePath s).2 =
      (isShown s || (c.createsConfig && c.setsShown)) := by
  rw [promptUserPermission, h, ← savePrompt_shown c yes]
  cases yes with
  | true => exact enableStartup_shown _ c.enable exePath
  | false => exact disableStartup_shown _ c.disable

/-- A prompt uses up that the user has not been asked, which only a lapse brings back. -/
theorem step_prompts (s : Setup) (op : Op) : prompts s op + unasked (step s op) ≤ unasked s + lapses op := by
  cases op with
  | start c cmdline yes exePath =>
      obtain ⟨t, ht⟩ : ∃ t, t = createExplorerShortcuts c.links (ensureMountRootExists c.createsRoot s) :=
        ⟨_, rfl⟩
      have hconfigured : configured c.prompt t = configured c.prompt s := ht ▸ rfl
      have hshown : isShown t = isShown s := ht ▸ rfl
      have hkept : unasked t = unasked s := by rw [unasked, hshown, ← unasked]
      rw [step, startDaemon, prompts, ← ht]
      cases quietMode cmdline with
      | true =>
          rw [Bool.true_or, if_pos rfl, if_pos rfl, hkept]
          omega
      | false =>
          rw [Bool.false_or, if_neg Bool.false_ne_true]
          cases hknown : configured c.prompt s with
          | true =>
              rw [promptUserPermission, hconfigured, hknown, if_pos rfl]
              exact Nat.le_trans (Nat.le_of_eq (by rw [Nat.zero_add]; exact hkept)) (Nat.le_add_right _ _)
          | false =>
              have hafter := promptUserPermission_shown (hconfigured.trans hknown) yes exePath
              rw [hshown] at hafter
              rw [if_neg Bool.false_ne_true, unasked, unasked, lapses, hafter]
              have hknown' : (c.prompt.opensConfig && isShown s) = false := hknown
              revert hknown'
              cases c.prompt.opensConfig <;> cases isShown s <;> cases c.prompt.createsConfig <;>
                cases c.prompt.setsShown <;> decide
  | toggle newState enable disable exePath =>
      cases newState with
      | true =>
          rw [step, if_pos rfl, unasked, enableStartup_shown]
          exact Nat.le_of_eq (Nat.zero_add _)
      | false =>
          rw [step, if_neg Bool.false_ne_true, unasked, disableStartup_shown]
          exact Nat.le_of_eq (Nat.zero_add _)
  | install c targetDir opts =>
      obtain ⟨copied, hrun | hrun⟩ := performInstallation_cases s c targetDir opts
      · rw [step, hrun]
        exact Nat.le_of_eq (Nat.zero_add _)
      · rw [step, hrun, unasked, configureInstallation_shown]
        exact Nat.le_of_eq (Nat.zero_add _)
  | uninstall c yes =>
      cases yes with
      | false => exact Nat.le_of_eq (Nat.zero_add _)
      | true =>
          rw [step, performUninstallation_eq, prompts, lapses, Nat.zero_add, Bool.true_and]
          cases hdeletes : c.completes && c.deletesConfig with
          | true => exact Nat.le_add_left _ _
          | false =>
              have hkept : unasked (disableStartup c.disable s) = unasked s := by
                rw [unasked, disableStartup_shown, ← unasked]
              exact Nat.le_of_eq hkept

end Prompts

/-- The user is asked once, and once more for each lapse. -/
theorem asked_once (s : Setup) (ops : List Op) :
    promptCount s ops ≤ unasked s + (ops.map lapses).sum := by
  induction ops generalizing s with
  | nil => exact Nat.zero_le _
  | cons op ops ih =>
      have hstep := step_prompts s op
      have hrest := ih (step s op)
      rw [promptCount, List.map_cons, List.sum_cons]
      omega

def uninstalled (s : Setup) : Setup :=
  { clean with mountRoot := s.mountRoot, projFs := s.projFs, files := s.files }

structure RemovesAll (c : UninstallCalls) (s : Setup) : Prop where
  task : s.task = none ∨ c.disable.deletesTask = true
  run : s.runValue = none ∨ c.disable.opensRun = true ∧ c.disable.deletesRun = true
  desktop : s.desktopLink = none ∨ c.desktop = .removed
  programs : s.programsLink = none ∨ c.desktop ≠ .throws ∧ c.programs = .removed
  daemon : s.daemonLink = none ∨ c.desktop ≠ .throws ∧ c.programs ≠ .throws ∧ c.daemon = .removed
  entry : s.uninstallEntry = none ∨ c.completes = true ∧ c.deletesEntry = true
  config : c.disable.createsConfig = false ∧ s.config = none ∨
    c.completes = true ∧ c.deletesConfig = true

theorem cleared_iff {α : Type} {p : Prop} [Decidable p] {x : Option α} :
    (if p then none else x) = none ↔ x = none ∨ p := by
  rw [ite_eq_left_iff, or_comm, or_iff_not_imp_left]

/-- An uninstallation leaves nothing but the files, the mount root and the feature exactly
if its calls succeed wherever there is something to remove. -/
theorem uninstalled_iff (s : Setup) (c : UninstallCalls) :
    step s (.uninstall c true) = uninstalled s ↔ RemovesAll c s := by
  rw [step, performUninstallation_eq, disableStartup_eq, uninstalled, clean]
  simp only [Setup.mk.injEq, and_true, cleared_iff, writeEnabled_config_none, Bool.and_eq_true]
  constructor
  · rintro ⟨htask, hrun, hconfig, hdesktop, hprograms, hdaemon, hentry⟩
    exact ⟨htask, hrun, hdesktop, hprograms, hdaemon, hentry, hconfig⟩
  · rintro ⟨htask, hrun, hdesktop, hprograms, hdaemon, hentry, hconfig⟩
    exact ⟨htask, hrun, hconfig, hdesktop, hprograms, hdaemon, hentry⟩

end Linux2Win.Startup
