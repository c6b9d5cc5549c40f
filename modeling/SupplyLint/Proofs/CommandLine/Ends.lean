import SupplyLint.CommandLine.Run
import SupplyLint.Proofs.Scan.Folders

/-! # How a command ends

A command that scans folders is refused, ends with a failure that nothing
reports, or reports an outcome for each repository (`ends_run`). -/
set_option autoImplicit false

namespace SupplyLint.CommandLine

/-! ## What is scanned -/

section Scans
variable (surroundings : Surroundings) (invocation : Invocation)

def Invocation.path : WrittenPath :=
  (WrittenPath.ofText invocation.subject).resolved surroundings.working

def Invocation.isFolder : Bool :=
  surroundings.tree.isFolder (invocation.path surroundings).names

def Invocation.configured : Except Failure Config :=
  invocation.configuration surroundings (some (invocation.path surroundings).text)

/-- The folder is there and has a configuration; these are the repositories to scan, the folder
itself or the folders in it. -/
structure Scans (config : Config) (checkouts : List Checkout) : Prop where
  folder : invocation.isFolder surroundings = true
  configured : invocation.configured surroundings = .ok config
  checkouts :
    match invocation.command with
    | .organization =>
      Checkout.inFolder surroundings.tree (invocation.path surroundings).names = .ok checkouts
    | _ =>
      checkouts = [{ tree := surroundings.tree, root := (invocation.path surroundings).names }]

def resultOf (config : Config) (checkout : Checkout) : Except Failure Outcome :=
  Scan.aloneResult config Rule.standard.rules checkout.repository

def Invocation.scanned (config : Config) : Scanned :=
  let root := (invocation.path surroundings).names
  match invocation.command with
  | .organization => scanFolders surroundings root config
  | _ => scanCheckout surroundings root config

/-- The outcomes of the repositories and the report of them. -/
structure Reports (config : Config) (checkouts : List Checkout) (outcomes : List Outcome)
    (text : String) : Prop where
  scans : Scans surroundings invocation config checkouts
  scanned : (invocation.scanned surroundings config).outcomes = .ok outcomes
  own : outcomes.Perm (checkouts.map fun checkout =>
    Scan.ownOutcome config Rule.standard.rules checkout.repository)
  written : Scanned.report config.outputFormat outcomes = .ok text

inductive Ends : Exit → Prop
  | noFolder (none : invocation.isFolder surroundings = false) :
      Ends (.error ("'" ++ (invocation.path surroundings).text ++ "' is not a directory."))
  | refused {failure : Failure} (folder : invocation.isFolder surroundings = true)
      (refused : invocation.configured surroundings = .error failure)
      (configuration : failure.isConfiguration = true) : Ends (.error failure.message)
  | misconfigured {failure : Failure} (folder : invocation.isFolder surroundings = true)
      (refused : invocation.configured surroundings = .error failure)
      (other : failure.isConfiguration = false) : Ends (.uncaught failure)
  | unscanned {config : Config} {checkout : Checkout} {fault : Fault}
      (alone : invocation.command = .checkout)
      (scans : Scans surroundings invocation config [checkout])
      (fails : resultOf config checkout = .error (.fault fault)) : Ends (.uncaught (.fault fault))
  | unwritten {config : Config} {checkouts : List Checkout}
      {outcomes : List Outcome} {fault : Fault}
      (scans : Scans surroundings invocation config checkouts)
      (scanned : (invocation.scanned surroundings config).outcomes = .ok outcomes)
      (fails : Scanned.report config.outputFormat outcomes = .error fault) :
      Ends (.uncaught (.fault fault))
  | reported {config : Config} {checkouts : List Checkout} {outcomes : List Outcome} {text : String}
      (reports : Reports surroundings invocation config checkouts outcomes text) :
      Ends
        { status := if Scanned.hasFindings outcomes then findingsStatus else okStatus
          out := text ++ "\n" }

end Scans

section Run
variable {surroundings : Surroundings} {invocation : Invocation} {config : Config}

theorem configured_eq_ok (configured : invocation.configured surroundings = .ok config) :
    0 < config.parallelism ∧ config.ListsRules := by
  simp only [Invocation.configured, Invocation.configuration, bind_eq_ok] at configured
  obtain ⟨loaded, load, made⟩ := configured
  obtain ⟨items, listed⟩ := ConfigFile.listsRules_of_load load
  obtain ⟨positive, same⟩ := Config.withOverrides_eq_ok (by simp [Choices.overrides]) made
  exact ⟨positive, items, same.trans listed⟩

theorem run_eq (command : invocation.command ≠ .remote) :
    invocation.run surroundings =
      if invocation.isFolder surroundings then
        match invocation.configured surroundings with
        | .error failure =>
          if failure.isConfiguration then .error failure.message else .uncaught failure
        | .ok config => (invocation.scanned surroundings config).exit config.outputFormat
      else .error ("'" ++ (invocation.path surroundings).text ++ "' is not a directory.") := by
  unfold Invocation.run Invocation.scanned
  cases asked : invocation.command with
  | remote => exact absurd asked command
  | checkout => rfl
  | organization => rfl

theorem exists_scans (folder : invocation.isFolder surroundings = true)
    (configured : invocation.configured surroundings = .ok config) :
    ∃ checkouts, Scans surroundings invocation config checkouts := by
  cases command : invocation.command with
  | organization =>
    obtain ⟨checkouts, listed⟩ := Scan.returns_inFolder folder
    exact ⟨checkouts, folder, configured, by rwa [command]⟩
  | checkout | remote => exact ⟨_, folder, configured, by rw [command]⟩

theorem outcomes_scanFolders (calm : surroundings.listingInterrupts = 0) (root : Place) :
    (Invocation.scanFolders surroundings root config).outcomes =
      (Scan.scanOrganization config Rule.standard.rules config.parallelism
        (Checkout.listing surroundings.tree root) false []).2 := by
  rw [Invocation.scanFolders, calm]
  rfl

theorem outcomes_scanCheckout (root : Place) :
    (Invocation.scanCheckout surroundings root config).outcomes =
      (resultOf config { tree := surroundings.tree, root := root }).map fun outcome => [outcome] :=
        rfl

theorem ownOutcome_of_resultOf {checkout : Checkout} {outcome : Outcome}
    (result : resultOf config checkout = .ok outcome) :
    Scan.ownOutcome config Rule.standard.rules checkout.repository = outcome := by
  rw [Scan.ownOutcome, ← resultOf, result]

theorem Scans.outcomes {checkouts : List Checkout}
    (scans : Scans surroundings invocation config checkouts)
    (command : invocation.command ≠ .remote) (calm : surroundings.listingInterrupts = 0) :
    (∃ checkout fault, invocation.command = .checkout ∧ checkouts = [checkout] ∧
      resultOf config checkout = .error (.fault fault) ∧
      (invocation.scanned surroundings config).outcomes = .error (.fault fault)) ∨
    ∃ outcomes, (invocation.scanned surroundings config).outcomes = .ok outcomes ∧
      outcomes.Perm (checkouts.map fun checkout =>
        Scan.ownOutcome config Rule.standard.rules checkout.repository) := by
  have listed := scans.checkouts
  unfold Invocation.scanned
  dsimp only
  cases asked : invocation.command with
  | remote => exact absurd asked command
  | organization =>
    rw [asked] at listed
    obtain ⟨positive, -⟩ := configured_eq_ok scans.configured
    obtain ⟨outcomes, result, own⟩ := Scan.scan_of_folders listed positive []
    exact .inr ⟨outcomes, (outcomes_scanFolders calm _).trans result, own⟩
  | checkout =>
    rw [asked] at listed
    obtain rfl := listed
    dsimp only
    rw [outcomes_scanCheckout]
    let checkout : Checkout :=
        { tree := surroundings.tree, root := (invocation.path surroundings).names }
    have faults : FaultsOnly (resultOf config checkout) :=
      Checkout.faultsOnly_alone config Rule.standard.rules scans.folder
    cases result : resultOf config checkout with
    | error failure =>
      obtain ⟨fault, rfl⟩ := faults failure result
      exact .inl ⟨checkout, fault, rfl, rfl, result, rfl⟩
    | ok outcome =>
      refine .inr ⟨[outcome], rfl, ?_⟩
      rw [List.map_singleton, ownOutcome_of_resultOf result]

/-! ## The end of a run -/

theorem calm_scanned (command : invocation.command ≠ .remote)
    (calm : surroundings.listingInterrupts = 0) (config : Config) :
    (invocation.scanned surroundings config).interrupts = 0 ∧
      (invocation.scanned surroundings config).commands = [] := by
  unfold Invocation.scanned
  cases asked : invocation.command with
  | remote => exact absurd asked command
  | organization => exact ⟨calm, rfl⟩
  | checkout => exact ⟨rfl, rfl⟩

section Exit
variable {scanned : Scanned} {format : Format} {outcomes : List Outcome} {fault : Fault}

theorem exit_of_calm (calm : scanned.interrupts = 0) (alone : scanned.commands = [])
    (format : Format) : scanned.exit format = { scanned.ending format with calls := [] } := by
  rw [Scanned.exit, Scanned.notices, Scanned.calls, calm, alone, List.replicate_zero]
  simp [String.join]

theorem exit_of_fault (calm : scanned.interrupts = 0) (alone : scanned.commands = [])
    (failed : scanned.outcomes = .error (.fault fault)) :
    scanned.exit format = .uncaught (.fault fault) := by
  rw [exit_of_calm calm alone, Scanned.ending, failed]
  rfl

theorem exit_of_unwritten (calm : scanned.interrupts = 0) (alone : scanned.commands = [])
    (scan : scanned.outcomes = .ok outcomes)
    (unwritten : Scanned.report format outcomes = .error fault) :
    scanned.exit format = .uncaught (.fault fault) := by
  rw [exit_of_calm calm alone, Scanned.ending, scan]
  dsimp only
  rw [unwritten]
  rfl

theorem exit_of_report (calm : scanned.interrupts = 0) (alone : scanned.commands = [])
    (scan : scanned.outcomes = .ok outcomes) {text : String}
    (written : Scanned.report format outcomes = .ok text) :
    scanned.exit format =
      { status := if Scanned.hasFindings outcomes then findingsStatus else okStatus
        out := text ++ "\n" } := by
  rw [exit_of_calm calm alone, Scanned.ending, scan]
  dsimp only
  rw [written, Scanned.status, Scanned.isInterrupted, calm]
  rfl

end Exit

theorem Reports.run {checkouts : List Checkout} {outcomes : List Outcome} {text : String}
    (reports : Reports surroundings invocation config checkouts outcomes text)
    (command : invocation.command ≠ .remote) (calm : surroundings.listingInterrupts = 0) :
    invocation.run surroundings =
      { status := if Scanned.hasFindings outcomes then findingsStatus else okStatus
        out := text ++ "\n" } := by
  obtain ⟨quiet, alone⟩ := calm_scanned command calm config
  rw [run_eq command, if_pos reports.scans.folder, reports.scans.configured]
  exact exit_of_report quiet alone reports.scanned reports.written

/-- A command that scans folders and is not interrupted ends in one of these ways. -/
theorem ends_run (command : invocation.command ≠ .remote)
    (calm : surroundings.listingInterrupts = 0) :
    Ends surroundings invocation (invocation.run surroundings) := by
  cases folder : invocation.isFolder surroundings with
  | false =>
    rw [run_eq command, folder]
    exact .noFolder folder
  | true =>
    cases configured : invocation.configured surroundings with
    | error failure =>
      rw [run_eq command, if_pos folder, configured]
      dsimp only
      split
      · next configuration => exact .refused folder configured configuration
      · next other => exact .misconfigured folder configured (by simpa using other)
    | ok config =>
      have runs : invocation.run surroundings =
          (invocation.scanned surroundings config).exit config.outputFormat := by
        rw [run_eq command, if_pos folder, configured]
      obtain ⟨checkouts, scans⟩ := exists_scans folder configured
      obtain ⟨quiet, alone⟩ := calm_scanned command calm config
      rcases scans.outcomes command calm with
        ⟨checkout, fault, single, rfl, fails, failed⟩ | ⟨outcomes, scanned, own⟩
      · rw [runs, exit_of_fault quiet alone failed]
        exact .unscanned single scans fails
      · cases written : Scanned.report config.outputFormat outcomes with
        | error fault =>
          rw [runs, exit_of_unwritten quiet alone scanned written]
          exact .unwritten scans scanned written
        | ok text =>
          rw [runs, exit_of_report quiet alone scanned written]
          exact .reported ⟨scans, scanned, own, written⟩

end Run

end SupplyLint.CommandLine
