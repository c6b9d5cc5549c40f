import SupplyLint.Proofs.CommandLine.Ends

/-! # What an exit status says

`exit_is_trusted_iff`: the status says what was found exactly when what goes
wrong with the configuration is reported as such, a repository that cannot be
scanned stands beside one with a finding, and the report can be written.
`unscanned_repository_exits_clean`: by itself such a repository goes unnoticed. -/
set_option autoImplicit false

namespace SupplyLint.CommandLine

/-! ## What the status says -/

section Trust
variable (surroundings : Surroundings) (invocation : Invocation)

def HasFinding (config : Config) (checkout : Checkout) : Prop :=
  ∃ outcome, resultOf config checkout = .ok outcome ∧ outcome.findings ≠ []

/-- With status 0 each repository was scanned and none has a finding; with status 1 findings were
reported; the only other status is 2. -/
structure Trusted (exit : Exit) : Prop where
  ok : exit.status = 0 →
    ∃ config checkouts, Scans surroundings invocation config checkouts ∧
      ∀ checkout ∈ checkouts, ∃ outcome,
        resultOf config checkout = .ok outcome ∧ outcome.succeeded = true ∧ outcome.findings = []
  findings : exit.status = 1 →
    ∃ config checkouts outcomes text, Reports surroundings invocation config
      checkouts outcomes text ∧
      exit.out = text ++ "\n" ∧ ∃ checkout ∈ checkouts, HasFinding config checkout
  statuses : exit.status = 0 ∨ exit.status = 1 ∨ exit.status = 2

/-- What goes wrong with the configuration is an error of the configuration, a repository that
cannot be scanned stands beside one with a finding, and the report can be written. -/
structure IsAccountable : Prop where
  configured : invocation.isFolder surroundings = true →
    ∀ failure, invocation.configured surroundings = .error failure → failure.isConfiguration = true
  noticed : ∀ config checkouts, Scans surroundings invocation config checkouts →
    (∃ checkout ∈ checkouts, ¬ checkout.CanBeScanned config) →
      ∃ checkout ∈ checkouts, HasFinding config checkout
  written : ∀ config checkouts outcomes, Scans surroundings invocation config checkouts →
    (invocation.scanned surroundings config).outcomes = .ok outcomes →
      Returns (Scanned.report config.outputFormat outcomes)

variable {surroundings invocation} {config : Config} {checkouts : List Checkout}

theorem Scans.unique (scans : Scans surroundings invocation config checkouts) {config' : Config}
    {checkouts' : List Checkout} (again : Scans surroundings invocation config' checkouts') :
    config' = config ∧ checkouts' = checkouts := by
  have listed := scans.checkouts
  have listed' := again.checkouts
  refine ⟨Except.ok.inj (again.configured.symm.trans scans.configured), ?_⟩
  cases command : invocation.command with
  | organization =>
    rw [command] at listed listed'
    exact Except.ok.inj (listed'.symm.trans listed)
  | checkout | remote =>
    rw [command] at listed listed'
    exact listed'.trans listed.symm

theorem Scans.isFolder (scans : Scans surroundings invocation config checkouts)
    {checkout : Checkout}
    (member : checkout ∈ checkouts) : checkout.tree.isFolder checkout.root = true := by
  have listed := scans.checkouts
  cases command : invocation.command with
  | organization =>
    rw [command] at listed
    exact Scan.isFolder_of_mem_inFolder listed member
  | checkout | remote =>
    rw [command] at listed
    obtain rfl := listed
    rw [List.mem_singleton.mp member]
    exact scans.folder

theorem Scans.returns_iff (scans : Scans surroundings invocation config checkouts)
    {checkout : Checkout}
    (member : checkout ∈ checkouts) :
    Returns (resultOf config checkout) ↔ checkout.CanBeScanned config :=
  Checkout.returns_alone_iff (configured_eq_ok scans.configured).2 (scans.isFolder member)

theorem hasFindings_iff (outcomes : List Outcome) :
    Scanned.hasFindings outcomes = true ↔ ∃ outcome ∈ outcomes, outcome.findings ≠ [] := by
  simp [Scanned.hasFindings]

theorem hasFinding_iff {checkout : Checkout} :
    HasFinding config checkout ↔
      (Scan.ownOutcome config Rule.standard.rules checkout.repository).findings ≠ [] := by
  rw [Scan.ownOutcome, HasFinding, resultOf]
  cases Scan.aloneResult config Rule.standard.rules checkout.repository with
  | ok outcome => simp
  | error failure => simp

theorem Reports.hasFindings_iff {outcomes : List Outcome} {text : String}
    (reports : Reports surroundings invocation config checkouts outcomes text) :
    Scanned.hasFindings outcomes = true ↔ ∃ checkout ∈ checkouts, HasFinding config checkout := by
  simp only [CommandLine.hasFindings_iff, hasFinding_iff, reports.own.mem_iff, List.mem_map,
    exists_exists_and_eq_and]

/-! ## The two for each way to end -/

theorem trusted_error (message : String) : Trusted surroundings invocation (.error message) :=
  ⟨nofun, nofun, .inr (.inr rfl)⟩

theorem not_trusted_uncaught (failure : Failure) :
    ¬ Trusted surroundings invocation (.uncaught failure) := by
  intro trusted
  obtain ⟨-, -, -, text, -, written, -⟩ := trusted.findings rfl
  have length : 0 = (text ++ "\n").length := congrArg String.length written
  rw [String.length_append] at length
  exact absurd length (Nat.succ_ne_zero text.length).symm

theorem isAccountable_of_no_scans
    (configured : invocation.isFolder surroundings = true →
      ∀ failure, invocation.configured surroundings = .error failure →
      failure.isConfiguration = true)
    (none : ∀ config checkouts, ¬ Scans surroundings invocation config checkouts) :
    IsAccountable surroundings invocation :=
  ⟨configured, fun _ _ scans => absurd scans (none _ _), fun _ _ _ scans => absurd scans (none _ _)⟩

theorem isAccountable_of_no_folder (none : invocation.isFolder surroundings = false) :
    IsAccountable surroundings invocation :=
  isAccountable_of_no_scans (fun folder => by simp [none] at folder)
    fun _ _ scans => Bool.false_ne_true (none.symm.trans scans.folder)

theorem isAccountable_of_refused {failure : Failure}
    (refused : invocation.configured surroundings = .error failure)
    (configuration : failure.isConfiguration = true) : IsAccountable surroundings invocation := by
  refine isAccountable_of_no_scans (fun _ other failed => ?_) fun _ _ scans => ?_
  · obtain rfl := Except.error.inj (refused.symm.trans failed)
    exact configuration
  · cases refused.symm.trans scans.configured

theorem not_isAccountable_of_unscanned {checkout : Checkout} {fault : Fault}
    (scans : Scans surroundings invocation config [checkout])
    (fails : resultOf config checkout = .error (.fault fault)) :
    ¬ IsAccountable surroundings invocation := by
  intro accountable
  have unscanned : ¬ checkout.CanBeScanned config := by
    rw [← scans.returns_iff List.mem_cons_self, fails]
    exact not_returns_error _
  obtain ⟨other, member, outcome, scanned, -⟩ :=
    accountable.noticed config _ scans ⟨checkout, List.mem_cons_self, unscanned⟩
  rw [List.mem_singleton.mp member, fails] at scanned
  cases scanned

theorem not_isAccountable_of_unwritten {outcomes : List Outcome} {fault : Fault}
    (scans : Scans surroundings invocation config checkouts)
    (scanned : (invocation.scanned surroundings config).outcomes = .ok outcomes)
    (fails : Scanned.report config.outputFormat outcomes = .error fault) :
    ¬ IsAccountable surroundings invocation := by
  intro accountable
  have returned := accountable.written config checkouts outcomes scans scanned
  rw [fails] at returned
  exact not_returns_error _ returned

theorem Reports.isAccountable_iff {outcomes : List Outcome} {text : String}
    (reports : Reports surroundings invocation config checkouts outcomes text) :
    IsAccountable surroundings invocation ↔
      ((∃ checkout ∈ checkouts, ¬ checkout.CanBeScanned config) →
        ∃ checkout ∈ checkouts, HasFinding config checkout) := by
  refine ⟨fun accountable => accountable.noticed config checkouts reports.scans, fun noticed => ?_⟩
  refine ⟨fun _ failure failed => ?_, fun config' checkouts' again => ?_,
    fun config' checkouts' outcomes' again scanned => ?_⟩
  · cases failed.symm.trans reports.scans.configured
  · obtain ⟨rfl, rfl⟩ := reports.scans.unique again
    exact noticed
  · obtain ⟨rfl, rfl⟩ := reports.scans.unique again
    obtain rfl := Except.ok.inj (reports.scanned.symm.trans scanned)
    rw [reports.written]
    exact returns_ok text

theorem Reports.trusted_iff {outcomes : List Outcome} {text : String}
    (reports : Reports surroundings invocation config checkouts outcomes text) :
    Trusted surroundings invocation
        { status := if Scanned.hasFindings outcomes then findingsStatus else okStatus
          out := text ++ "\n" } ↔
      ((∃ checkout ∈ checkouts, ¬ checkout.CanBeScanned config) →
        ∃ checkout ∈ checkouts, HasFinding config checkout) := by
  have found := reports.hasFindings_iff
  by_cases findings : Scanned.hasFindings outcomes = true
  · have reported := found.mp findings
    rw [if_pos findings]
    refine iff_of_true ⟨nofun, fun _ => ?_, .inr (.inl rfl)⟩ fun _ => reported
    exact ⟨config, checkouts, outcomes, text, reports, rfl, reported⟩
  · have unreported := mt found.mpr findings
    rw [if_neg findings]
    constructor
    · rintro trusted ⟨checkout, member, unscanned⟩
      obtain ⟨config', checkouts', again, clean⟩ := trusted.ok rfl
      obtain ⟨rfl, rfl⟩ := reports.scans.unique again
      obtain ⟨outcome, scanned, -⟩ := clean checkout member
      exact absurd ((reports.scans.returns_iff member).mp ⟨outcome, scanned⟩) unscanned
    · intro noticed
      refine ⟨fun _ => ⟨config, checkouts, reports.scans, fun checkout member => ?_⟩,
        nofun, .inl rfl⟩
      have scannable : checkout.CanBeScanned config := by
        by_contra unscanned
        exact unreported (noticed ⟨checkout, member, unscanned⟩)
      obtain ⟨outcome, scanned⟩ := (reports.scans.returns_iff member).mpr scannable
      refine ⟨outcome, scanned, Checkout.succeeded_of_alone scanned, ?_⟩
      by_contra some
      exact unreported ⟨checkout, member, outcome, scanned, some⟩

/-- For all files, and all words that ask for a scan of folders: the status is to be trusted exactly
when all that goes wrong is accounted for. -/
theorem exit_is_trusted_iff {words : List String}
    (accepted : Invocation.ofWords words = .ok (some invocation))
    (folder : invocation.command ≠ .remote) (calm : surroundings.listingInterrupts = 0) :
    Trusted surroundings invocation (run surroundings words) ↔
      IsAccountable surroundings invocation := by
  have runs : run surroundings words = invocation.run surroundings := by rw [run, accepted]
  have ends := ends_run folder calm
  rw [runs]
  generalize invocation.run surroundings = exit at ends ⊢
  cases ends with
  | noFolder none => exact iff_of_true (trusted_error _) (isAccountable_of_no_folder none)
  | refused _ refused configuration =>
    exact iff_of_true (trusted_error _) (isAccountable_of_refused refused configuration)
  | misconfigured folder refused other =>
    refine iff_of_false (not_trusted_uncaught _) fun accountable => ?_
    exact Bool.false_ne_true (other.symm.trans (accountable.configured folder _ refused))
  | unscanned _ scans fails =>
    exact iff_of_false (not_trusted_uncaught _) (not_isAccountable_of_unscanned scans fails)
  | unwritten scans scanned fails =>
    exact iff_of_false (not_trusted_uncaught _) (not_isAccountable_of_unwritten scans scanned fails)
  | reported reports => exact reports.trusted_iff.trans reports.isAccountable_iff.symm

end Trust

/-! ## A tree with one repository -/

section Single
variable (content : String)

def holding : Surroundings :=
  { tree := ⟨[(["r"], .folder), (["r", ".gitlab-ci.yml"], .file content.toUTF8.data.toList)]⟩
    working := [] }

def single : Checkout :=
  { tree := (holding content).tree, root := ["r"] }

def wordsForTree : List String :=
  ["analyze-org", "/", "--format", "json"]

def wholeTree : Invocation :=
  { command := .organization, subject := "/", choices := { format := .json }, verbose := false }

def inJson : Config :=
  { outputFormat := .json }

theorem ofWords_wordsForTree : Invocation.ofWords wordsForTree = .ok (some wholeTree) := by
  rfl

theorem configured_wholeTree : wholeTree.configured (holding content) = .ok inJson := by
  let tree := (holding content).tree
  let file := (WrittenPath.ofPlace []).child ConfigFile.usualName
  have path : (wholeTree.path (holding content)).text = "/" := by with_unfolding_all rfl
  have given : ConfigFile.given? (some "/") = some (.ofPlace []) := by with_unfolding_all rfl
  have candidates : ConfigFile.candidates tree [] (some (.ofPlace [])) = .ok [file, file] := rfl
  have plain : (file.names.any (·.contains '\x00')) = false := by
    show [ConfigFile.usualName].any _ = false
    simp [ConfigFile.usualName]
  have short : Tree.isLongPath file = false := by decide +kernel
  have missing : tree.file? [] file = .ok none := by
    rw [Tree.file?, plain, short]
    with_unfolding_all rfl
  have located : ConfigFile.locate tree [] none (some "/") = .ok none := by
    rw [ConfigFile.locate, given, candidates]
    show ConfigFile.firstFile tree [] [file, file] = _
    simp only [ConfigFile.firstFile, missing]
    rfl
  have loaded : ConfigFile.load tree [] none (some "/") = .ok {} := by
    rw [ConfigFile.load, located]
    rfl
  rw [Invocation.configured, path, Invocation.configuration]
  show (ConfigFile.load tree [] none (some "/") >>= _) = _
  rw [loaded]
  with_unfolding_all rfl

theorem places_holding : (holding content).tree.places = [["r"], ["r", ".gitlab-ci.yml"]] := by
  have distinct : firsts (holding content).tree.entries.keys =
      [["r"], ["r", ".gitlab-ci.yml"]] := by
    with_unfolding_all rfl
  rw [Tree.places, distinct]
  exact List.mergeSort_of_pairwise (by decide)

theorem scans_holding : Scans (holding content) wholeTree inJson [single content] where
  folder := rfl
  configured := configured_wholeTree content
  checkouts := by
    have names : (holding content).tree.names [] = ["r"] := by
      rw [Tree.names, Tree.below, places_holding]
      rfl
    have folder : (holding content).tree.isFolder [] = true := rfl
    show Checkout.inFolder (holding content).tree [] = _
    rw [Checkout.inFolder, if_pos folder, names]
    with_unfolding_all rfl

theorem pipelineFiles_single :
    (single content).pipelineFiles = [⟨.gitlab, [".gitlab-ci.yml"]⟩] := by
  have below : (single content).tree.below (single content).root = [[".gitlab-ci.yml"]] := by
    rw [Tree.below, single, places_holding]
    rfl
  rw [Checkout.pipelineFiles, below]
  with_unfolding_all rfl

theorem resultOf_single :
    resultOf inJson (single content) =
      Scan.outcomeOf inJson Rule.standard.rules "r" (single content).read
        (Scan.collectedOf inJson
          [.document (Document.ofText .gitlab ".gitlab-ci.yml" content)]) := by
  have items : (single content).pipelineFiles.map (single content).item =
      [.document (Document.ofText .gitlab ".gitlab-ci.yml" content)] := by
    rw [pipelineFiles_single]
    with_unfolding_all rfl
  have matched : ∀ found ∈ (single content).pipelineFiles, Returns (inJson.excludes found.path) :=
    fun _ _ => returns_ok _
  rw [resultOf, Checkout.alone_of_matched rfl matched, items]
  rfl

variable {content}

theorem reports_holding {outcome : Outcome} {text : String}
    (own : Scan.ownOutcome inJson Rule.standard.rules (single content).repository = outcome)
    (written : (Scanned.report .json [outcome]).toOption = some text) :
    Reports (holding content) wholeTree inJson [single content] [outcome] text := by
  subst own
  rcases (scans_holding content).outcomes (by decide) rfl with ⟨_, _, alone, -⟩ |
      ⟨outcomes, scanned, own⟩
  · cases alone
  · obtain rfl := List.perm_singleton.mp own
    exact ⟨scans_holding content, scanned, own, toOption_eq_some.mp written⟩

/-- Where nothing goes wrong the status is to be trusted. -/
theorem scanned_repository_is_trusted :
    Invocation.ofWords wordsForTree = .ok (some wholeTree) ∧
      wholeTree.command ≠ .remote ∧
      (holding "a: 2024-12-01\n").listingInterrupts = 0 ∧
      IsAccountable (holding "a: 2024-12-01\n") wholeTree ∧
      Trusted (holding "a: 2024-12-01\n") wholeTree
        (run (holding "a: 2024-12-01\n") wordsForTree) := by
  have read : ((resultOf inJson (single "a: 2024-12-01\n")).toOption.any fun outcome =>
      (Scanned.report .json [outcome]).toOption.isSome) = true := by
    rw [resultOf_single]
    decide +kernel
  obtain ⟨outcome, found, shown⟩ := (Option.any_eq_true _ _).mp read
  obtain ⟨text, written⟩ := Option.isSome_iff_exists.mp shown
  have result := toOption_eq_some.mp found
  have reports := reports_holding (ownOutcome_of_resultOf result) written
  have accountable : IsAccountable (holding "a: 2024-12-01\n") wholeTree := by
    rw [reports.isAccountable_iff]
    rintro ⟨checkout, member, unscanned⟩
    obtain rfl := List.mem_singleton.mp member
    exact absurd ((reports.scans.returns_iff member).mp ⟨outcome, result⟩) unscanned
  exact ⟨ofWords_wordsForTree, by decide, rfl, accountable,
    (exit_is_trusted_iff ofWords_wordsForTree (by decide) rfl).mpr accountable⟩

def isMonthFault : Except Failure Outcome → Bool
  | .error (.fault (.calendar .month)) => true
  | _ => false

theorem eq_of_isMonthFault {result : Except Failure Outcome} (holds : isMonthFault result = true) :
    result = .error (.fault (.calendar .month)) := by
  unfold isMonthFault at holds
  split at holds
  · rfl
  · cases holds

/-- A month that there is not keeps the only repository from being scanned; the command ends with
status 0 all the same. -/
theorem unscanned_repository_exits_clean :
    Invocation.ofWords wordsForTree = .ok (some wholeTree) ∧
      Scans (holding "a: 2024-13-01\n") wholeTree inJson [single "a: 2024-13-01\n"] ∧
      resultOf inJson (single "a: 2024-13-01\n") = .error (.fault (.calendar .month)) ∧
      (run (holding "a: 2024-13-01\n") wordsForTree).status = 0 ∧
      ¬ Trusted (holding "a: 2024-13-01\n") wholeTree
        (run (holding "a: 2024-13-01\n") wordsForTree) := by
  have scans := scans_holding "a: 2024-13-01\n"
  have failed : resultOf inJson (single "a: 2024-13-01\n") = .error
      (.fault (.calendar .month)) := by
    apply eq_of_isMonthFault
    rw [resultOf_single]
    decide +kernel
  have own : Scan.ownOutcome inJson Rule.standard.rules (single "a: 2024-13-01\n").repository =
      { repository := "r", failure := some (.fault (.calendar .month)) } := by
    rw [Scan.ownOutcome, ← resultOf, failed]
    rfl
  have shown : (Scanned.report .json
      [{ repository := "r", failure := some (.fault (.calendar .month)) }]).toOption.isSome =
        true := by
    decide +kernel
  have clean : (run (holding "a: 2024-13-01\n") wordsForTree).status = 0 := by
    obtain ⟨text, written⟩ := Option.isSome_iff_exists.mp shown
    have reports := reports_holding own written
    rw [run, ofWords_wordsForTree]
    dsimp only
    rw [reports.run (by decide) rfl]
    rfl
  refine ⟨ofWords_wordsForTree, scans, failed, clean, fun trusted => ?_⟩
  obtain ⟨config, checkouts, again, each⟩ := trusted.ok clean
  obtain ⟨rfl, rfl⟩ := scans.unique again
  obtain ⟨outcome, scanned, -⟩ := each _ List.mem_cons_self
  cases failed.symm.trans scanned

end Single

end SupplyLint.CommandLine
