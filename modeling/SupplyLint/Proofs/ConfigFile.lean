import SupplyLint.Proofs.Config
import SupplyLint.Proofs.Text.Utf8
import SupplyLint.Proofs.Value.Equality
import SupplyLint.Proofs.Value.Text
import SupplyLint.Scan.Aggregate

/-! # What a configuration file comes to

A configuration file should be honoured as it is written, or refused. The values of
its settings can be of any kind, and not all of them are looked at before they are
used: `config_is_honoured_or_refused_iff` says which files are neither. -/
set_option autoImplicit false

namespace SupplyLint.ConfigFile

open SupplyLint.Text

/-! ## Settings as they are written -/

/-- A setting that is written as the texts: as a list of them, or as a single one. Where nothing is
written there are none. -/
def IsWrittenAs : Option Value → List String → Prop
  | none, texts => texts = []
  | some .null, texts => texts = []
  | some (.text one), texts => texts = [one]
  | some (.list items), texts => items = texts.map .text
  | some _, _ => False

def severityText (entries : Entries) : Except Fault String :=
  match entries.get? (.text "severity") with
  | some value => value.toText
  | none => .ok "low"

def threadsField (entries : Entries) : Value :=
  (entries.get? (.text "threads")).getD (.int 2)

/-- A configuration has the settings that are written. -/
structure Honours (entries : Entries) (config : Config) : Prop where
  severity : severityText entries = .ok config.severity.text
  threads : config.threads = threadsField entries
  positive : 1 ≤ config.parallelism
  count : config.threads = .int config.parallelism ∨
    config.threads = .bool true ∧ config.parallelism = 1
  ignoreRules : ∃ rules, IsWrittenAs (entries.get? (.text "ignore_rules")) rules ∧
    config.ignoreRules = .list (rules.map .text)
  exclude : ∃ patterns, IsWrittenAs (entries.get? (.text "exclude")) patterns ∧
    config.exclude = .list (patterns.map .text)

/-- With a configuration exactly the paths are excluded that match a pattern that is written, and
exactly the findings are left out that are of a rule that is written or not severe enough. -/
structure ScansAsWritten (entries : Entries) (config : Config) : Prop where
  excludes : ∀ patterns, IsWrittenAs (entries.get? (.text "exclude")) patterns →
    ∀ path, config.excludes path = .ok (patterns.any fun pattern => Glob.accepts pattern path)
  filters : ∀ rules, IsWrittenAs (entries.get? (.text "ignore_rules")) rules →
    ∀ findings, Finding.filterBy config findings = .ok (findings.filter fun finding =>
      finding.rule == Rule.evaluationError ||
        (!rules.contains finding.rule && config.severity.rank ≤ finding.severity.rank))

theorem text_injective : Function.Injective Value.text :=
  fun _ _ same => Value.text.inj same

theorem IsWrittenAs.unique {value : Option Value} {first second : List String}
    (here : IsWrittenAs value first) (there : IsWrittenAs value second) : first = second := by
  cases value with
  | none => exact here.trans there.symm
  | some value =>
    cases value with
    | null | text => exact here.trans there.symm
    | list items => exact text_injective.list_map (here.symm.trans there)
    | _ => exact here.elim

theorem anyPattern_texts (path : String) (patterns : List String) :
    Config.anyPattern path (patterns.map .text) =
      .ok (patterns.any fun pattern => Glob.accepts pattern path) := by
  induction patterns with
  | nil => rfl
  | cons pattern rest ih =>
    simp only [List.map_cons, Config.anyPattern, Config.patternMatches, ok_bind, List.any_cons]
    cases Glob.accepts pattern path with
    | true => rfl
    | false => exact ih

theorem scansAsWritten_of_honours {entries : Entries} {config : Config}
    (honours : Honours entries config) : ScansAsWritten entries config where
  excludes patterns written path := by
    obtain ⟨own, ownWritten, same⟩ := honours.exclude
    obtain rfl := written.unique ownWritten
    rw [Config.excludes, same]
    exact anyPattern_texts path patterns
  filters rules written findings := by
    obtain ⟨own, ownWritten, same⟩ := honours.ignoreRules
    obtain rfl := written.unique ownWritten
    exact (Config.ignores_of_texts same).filterBy findings

/-! ## Settings that are kept -/

/-- A setting is a list of texts, or a text of one character: other texts are taken apart, and what
is left of other values are their keys, their bytes, or nothing. -/
def IsKept : Option Value → Prop
  | none => True
  | some .null => True
  | some (.text one) => ∃ code : Code, one.toList = code.kept
  | some (.list items) => ∃ texts : List String, items = texts.map .text
  | some _ => False

theorem length_kept (code : Code) : 0 < code.kept.length ∧ code.kept.length ≤ 2 := by
  cases code with
  | char c =>
    rw [Code.kept]
    split
    · decide
    · exact ⟨Nat.one_pos, Nat.le_succ 1⟩
  | surrogate distance => exact ⟨Nat.two_pos, Nat.le_refl 2⟩

def itemsOf : Option Value → Except Fault (List Value)
  | none => .ok []
  | some value => if value.present then value.elements else .ok []

def isWalkable : Value → Bool
  | .list _ | .tuple _ | .set _ | .map _ | .text _ | .bytes _ => true
  | _ => false

def IsWalked : Option Value → Prop
  | none => True
  | some value => value.present = true → isWalkable value = true

theorem returns_elements (value : Value) : Returns value.elements ↔ isWalkable value = true := by
  cases value <;> simp [Value.elements, isWalkable]

theorem returns_itemsOf (value : Option Value) : Returns (itemsOf value) ↔ IsWalked value := by
  cases value with
  | none => exact iff_of_true (returns_ok []) trivial
  | some value =>
    rw [itemsOf, IsWalked, ← returns_elements]
    split
    · next present => exact ⟨fun returned _ => returned, fun walked => walked present⟩
    · next absent => exact iff_of_true (returns_ok []) fun present => absurd present absent

theorem returns_severityText (entries : Entries) :
    Returns (severityText entries) ↔
      ∀ value, entries.get? (.text "severity") = some value → value.isShort = true := by
  unfold severityText
  cases entries.get? (.text "severity") with
  | none => exact iff_of_true (returns_ok "low") nofun
  | some value => simp

theorem listSetting_eq (entries : Entries) (name : String) :
    listSetting entries name = (itemsOf (entries.get? (.text name))).map .list := by
  unfold listSetting itemsOf
  cases entries.get? (.text name) with
  | none => rfl
  | some value => exact (apply_ite (Except.map Value.list) value.present
      value.elements (.ok [])).symm

theorem itemsOf_list (items : List Value) : itemsOf (some (.list items)) = .ok items := by
  cases items with
  | nil => rfl
  | cons item rest => rfl

theorem itemsOf_text_iff (one : String) :
    itemsOf (some (.text one)) = .ok [.text one] ↔ ∃ code : Code, one.toList = code.kept := by
  constructor
  · intro found
    simp only [itemsOf] at found
    split at found
    · simp only [Value.elements, Except.ok.injEq, List.map_eq_singleton_iff, Value.text.injEq]
        at found
      obtain ⟨code, -, same⟩ := found
      exact ⟨code, by rw [← same, String.toList_ofList]⟩
    · cases found
  · rintro ⟨code, same⟩
    have some : one ≠ "" := by
      rintro rfl
      have filled := (length_kept code).1
      rw [← same] at filled
      cases filled
    have codes : codes one.toList = [code] := by
      rw [same]
      simpa using codes_flatMap_kept [code]
    rw [itemsOf, if_pos (by simpa [Value.present] using some), Value.elements, codes]
    simp [← same]

theorem isKept_iff (value : Option Value) :
    (∃ texts, IsWrittenAs value texts ∧ itemsOf value = .ok (texts.map .text)) ↔ IsKept value := by
  cases value with
  | none => exact iff_of_true ⟨[], rfl, rfl⟩ trivial
  | some value =>
    cases value with
    | null => exact iff_of_true ⟨[], rfl, rfl⟩ trivial
    | text one =>
      show _ ↔ ∃ code : Code, one.toList = code.kept
      rw [← itemsOf_text_iff]
      constructor
      · rintro ⟨texts, rfl, found⟩
        exact found
      · exact fun found => ⟨[one], rfl, found⟩
    | list items =>
      rw [itemsOf_list]
      constructor
      · rintro ⟨texts, written, -⟩
        exact ⟨texts, written⟩
      · rintro ⟨texts, rfl⟩
        exact ⟨texts, rfl, rfl⟩
    | _ => exact iff_of_false (fun ⟨_, written, _⟩ => written) id

/-! ## Files that are honoured or refused -/

/-- Nothing in the settings of a file ends the reading but what is refused: the severity has a text,
lists can be walked through, threads that are refused can be shown, and lists that are taken are
kept. -/
structure IsSound (entries : Entries) : Prop where
  severity : ∀ value, entries.get? (.text "severity") = some value → value.isShort = true
  ignoreRules : IsWalked (entries.get? (.text "ignore_rules"))
  exclude : IsWalked (entries.get? (.text "exclude"))
  threads : ∀ severity : Severity, severityText entries = .ok severity.text →
    Config.threadCount (threadsField entries) = none → (threadsField entries).isShort = true
  kept : ∀ severity : Severity, severityText entries = .ok severity.text →
    (Config.threadCount (threadsField entries)).isSome →
      IsKept (entries.get? (.text "ignore_rules")) ∧ IsKept (entries.get? (.text "exclude"))

/-- A configuration that is made has the settings that are written and scans by them; one that is
not made is refused. -/
def IsHonoured (entries : Entries) (outcome : Except Failure Config) : Prop :=
  (∃ message, outcome = .error (.configuration message)) ∨
    ∃ config, outcome = .ok config ∧ Honours entries config ∧ ScansAsWritten entries config

theorem settingsOf_eq (entries : Entries) :
    settingsOf entries = (do
      let severity ← severityText entries
      let ignoreRules ← itemsOf (entries.get? (.text "ignore_rules"))
      let exclude ← itemsOf (entries.get? (.text "exclude"))
      return {
        severity := .text severity
        ignoreRules := .list ignoreRules
        exclude := .list exclude
        threads := threadsField entries }) := by
  have lists {α : Type} (value : Option Value) (next : Value → Except Fault α) :
      ((itemsOf value).map .list >>= next) = itemsOf value >>= fun items => next (.list items) := by
    cases itemsOf value with
    | error fault => rfl
    | ok items => rfl
  simp only [settingsOf, listSetting_eq, lists, severityText, threadsField]
  cases entries.get? (.text "severity") with
  | none => rfl
  | some value => rfl

section Honoured
variable {entries : Entries}

theorem not_isHonoured_fault (fault : Fault) : ¬ IsHonoured entries (.error (.fault fault)) := by
  rintro (⟨message, refused⟩ | ⟨config, made, -⟩)
  · cases refused
  · cases made

theorem isHonoured_invalid_iff (what : String) (value : Value) (expected : String) :
    IsHonoured entries (Config.invalid what value expected) ↔ value.isShort = true := by
  rw [← Value.returns_quoted]
  cases shown : value.quoted with
  | error fault =>
    have fails : (Config.invalid what value expected : Except Failure Config) =
        .error (.fault fault) := by
      rw [Config.invalid, shown]
      rfl
    rw [fails]
    exact iff_of_false (not_isHonoured_fault fault) (not_returns_error fault)
  | ok text =>
    refine iff_of_true (.inl ⟨"Invalid " ++ what ++ " " ++ text ++ ", expected " ++ expected, ?_⟩)
      (returns_ok text)
    rw [Config.invalid, shown]
    rfl

theorem isHonoured_ok_iff (config : Config) :
    IsHonoured entries (.ok config) ↔ Honours entries config := by
  constructor
  · rintro (⟨message, refused⟩ | ⟨same, made, honours, -⟩)
    · cases refused
    · obtain rfl := Except.ok.inj made
      exact honours
  · exact fun honours => .inr ⟨config, rfl, honours, scansAsWritten_of_honours honours⟩

theorem text_of_ofText? {name : String} {severity : Severity}
    (named : Severity.ofText? name = some severity) : severity.text = name := by
  simpa using List.find?_some named

theorem lists_are_written_iff {value : Option Value} {items : List Value}
    (taken : itemsOf value = .ok items) :
    (∃ texts, IsWrittenAs value texts ∧ Value.list items = .list (texts.map .text)) ↔
      IsKept value := by
  rw [← isKept_iff, taken]
  simp only [Value.list.injEq, Except.ok.injEq]

variable {severity : String} {ignored excluded : List Value}

theorem isHonoured_ofSettings_iff (written : severityText entries = .ok severity)
    (ignores : itemsOf (entries.get? (.text "ignore_rules")) = .ok ignored)
    (excludes : itemsOf (entries.get? (.text "exclude")) = .ok excluded) :
    IsHonoured entries (Config.ofSettings
        { severity := .text severity
          ignoreRules := .list ignored
          exclude := .list excluded
          threads := threadsField entries }) ↔
      IsSound entries := by
  have reads := (returns_severityText entries).mp ⟨severity, written⟩
  have walks := (returns_itemsOf _).mp ⟨ignored, ignores⟩
  have walksToo := (returns_itemsOf _).mp ⟨excluded, excludes⟩
  simp only [Config.ofSettings, Config.severityOf]
  -- The constructor looks at the severity first and at the threads only then.
  cases named : Severity.ofText? severity with
  | none =>
    have unnamed : ∀ level : Severity, severityText entries ≠ .ok level.text := by
      intro level same
      obtain rfl := Except.ok.inj (written.symm.trans same)
      rw [Severity.ofText?_text] at named
      cases named
    refine iff_of_true ((isHonoured_invalid_iff _ _ _).mpr rfl)
      ⟨reads, walks, walksToo, fun level same => absurd same (unnamed level),
        fun level same => absurd same (unnamed level)⟩
  | some level =>
    obtain rfl := text_of_ofText? named
    cases counts : Config.threadCount (threadsField entries) with
    | none =>
      show IsHonoured entries (Config.invalid _ _ _) ↔ _
      rw [isHonoured_invalid_iff]
      exact ⟨fun short => ⟨reads, walks, walksToo, fun _ _ _ => short,
          fun _ _ some => absurd (counts ▸ some) (by simp)⟩,
        fun sound => sound.threads level written counts⟩
    | some count =>
      show IsHonoured entries (.ok _) ↔ _
      rw [isHonoured_ok_iff]
      constructor
      · intro honours
        exact ⟨reads, walks, walksToo, fun _ _ none => absurd (counts.symm.trans none) (by simp),
          fun _ _ _ => ⟨(lists_are_written_iff ignores).mp honours.ignoreRules,
            (lists_are_written_iff excludes).mp honours.exclude⟩⟩
      · intro sound
        obtain ⟨rulesKept, patternsKept⟩ := sound.kept level written (counts ▸ rfl)
        exact
          { severity := written
            threads := rfl
            positive := Config.threadCount_pos counts
            count := Config.threadCount_eq_some counts
            ignoreRules := (lists_are_written_iff ignores).mpr rulesKept
            exclude := (lists_are_written_iff excludes).mpr patternsKept }

theorem isHonoured_settings_iff (entries : Entries) :
    IsHonoured entries (uncaught (settingsOf entries) >>= Config.ofSettings) ↔ IsSound entries := by
  rw [settingsOf_eq]
  cases written : severityText entries with
  | error fault =>
    have unread : ¬ Returns (severityText entries) := written ▸ not_returns_error fault
    rw [returns_severityText] at unread
    exact iff_of_false (not_isHonoured_fault fault) fun sound => unread sound.severity
  | ok severity =>
    cases ignores : itemsOf (entries.get? (.text "ignore_rules")) with
    | error fault =>
      have unwalked := mt (returns_itemsOf (entries.get? (.text "ignore_rules"))).mpr
        (ignores ▸ not_returns_error fault)
      exact iff_of_false (not_isHonoured_fault fault) fun sound => unwalked sound.ignoreRules
    | ok ignored =>
      cases excludes : itemsOf (entries.get? (.text "exclude")) with
      | error fault =>
        have unwalked := mt (returns_itemsOf (entries.get? (.text "exclude"))).mpr
          (excludes ▸ not_returns_error fault)
        exact iff_of_false (not_isHonoured_fault fault) fun sound => unwalked sound.exclude
      | ok excluded => exact isHonoured_ofSettings_iff written ignores excludes

end Honoured

def entriesIn : Value → Entries
  | .map entries => entries
  | _ => []

/-- The configuration of a file with a text is made as it is written there, or the file is
refused. -/
def IsHonouredOrRefused (text : List Char) (outcome : Except Failure Config) : Prop :=
  (∃ message, outcome = .error (.configuration message)) ∨
    ∃ value config, Yaml.loadSingle text = .ok value ∧ outcome = .ok config ∧
      Honours (entriesIn value) config ∧ ScansAsWritten (entriesIn value) config

/-- Every scalar of a text can be made, or the text is no YAML, and the settings in it are sound. -/
structure IsSoundText (text : List Char) : Prop where
  made : ∀ fault, Yaml.loadSingle text ≠ .error (.fault fault)
  sound : ∀ value, Yaml.loadSingle text = .ok value → IsSound (entriesIn value)

theorem isSound_nothing : IsSound [] where
  severity := nofun
  ignoreRules := trivial
  exclude := trivial
  threads _ _ uncounted := by cases uncounted
  kept _ _ _ := ⟨trivial, trivial⟩

theorem honours_nothing : Honours [] {} where
  severity := rfl
  threads := rfl
  positive := Nat.succ_pos 1
  count := .inl rfl
  ignoreRules := ⟨[], rfl, rfl⟩
  exclude := ⟨[], rfl, rfl⟩

theorem isHonoured_nothing_iff : IsHonoured [] (.ok {}) ↔ IsSound [] :=
  iff_of_true ((isHonoured_ok_iff {}).mpr honours_nothing) isSound_nothing

section Texts
variable {text : List Char}

theorem isHonouredOrRefused_iff {value : Value} (loaded : Yaml.loadSingle text = .ok value)
    (outcome : Except Failure Config) :
    IsHonouredOrRefused text outcome ↔ IsHonoured (entriesIn value) outcome := by
  refine or_congr_right
    ⟨?_, fun ⟨config, made, honoured⟩ => ⟨value, config, loaded, made, honoured⟩⟩
  rintro ⟨same, config, read, made, honoured⟩
  obtain rfl := Except.ok.inj (loaded.symm.trans read)
  exact ⟨config, made, honoured⟩

theorem isSoundText_iff {value : Value} (loaded : Yaml.loadSingle text = .ok value) :
    IsSoundText text ↔ IsSound (entriesIn value) := by
  refine ⟨fun sound => sound.sound value loaded, fun sound => ?_⟩
  refine ⟨fun fault fails => ?_, fun same read => ?_⟩
  · cases loaded.symm.trans fails
  · obtain rfl := Except.ok.inj (loaded.symm.trans read)
    exact sound

theorem isHonouredOrRefused_read_iff (path : String) {content : List UInt8}
    (utf8 : decodeUtf8 content = .ok text) :
    IsHonouredOrRefused text (read path content) ↔ IsSoundText text := by
  have decoded : uncaught (textOf content) = .ok text := by
    rw [textOf_of_decodes utf8]
    rfl
  simp only [read, decoded, ok_bind]
  cases loaded : Yaml.loadSingle text with
  | error failure =>
    cases failure with
    | malformed =>
      refine iff_of_true (.inl ⟨_, rfl⟩) ⟨fun fault fails => ?_, fun value read => ?_⟩
      · cases loaded.symm.trans fails
      · cases loaded.symm.trans read
    | fault fault =>
      refine iff_of_false ?_ fun sound => sound.made fault loaded
      rintro (⟨message, refused⟩ | ⟨value, config, read, -⟩)
      · cases refused
      · cases loaded.symm.trans read
  | ok value =>
    rw [isHonouredOrRefused_iff loaded, isSoundText_iff loaded]
    cases value with
    | map entries => exact isHonoured_settings_iff entries
    | _ => exact isHonoured_nothing_iff

theorem load_of_locate {tree : Tree} {working : Place}
    {asked scanned : Option String} {file : Located}
    {content : List UInt8} (found : locate tree working asked scanned = .ok (some file))
    (holds : tree.content? file.place = some content) :
    load tree working asked scanned = read file.path content := by
  rw [load, found]
  show read file.path ((tree.content? file.place).getD []) = _
  rw [holds]
  rfl

/-- For every tree and every content of the file that holds the configuration: the configuration is
as it is written there, or it is refused, exactly when every scalar can be made and all settings are
sound. -/
theorem config_is_honoured_or_refused_iff {tree : Tree} {working : Place}
    {asked scanned : Option String}
    {file : Located} {content : List UInt8}
    (found : locate tree working asked scanned = .ok (some file))
    (holds : tree.content? file.place = some content) (utf8 : decodeUtf8 content = .ok text) :
    IsHonouredOrRefused text (load tree working asked scanned) ↔ IsSoundText text := by
  rw [load_of_locate found holds]
  exact isHonouredOrRefused_read_iff file.path utf8

end Texts

/-! ## Patterns as a list and as a text -/

def treeWith (content : String) : Tree :=
  ⟨[([usualName], .file content.toUTF8.data.toList)]⟩

def atTop : Located :=
  ⟨[usualName], "/.pipeaudit.yml"⟩

theorem locate_treeWith (content : String) :
    locate (treeWith content) [] none none = .ok (some atTop) := by
  let path : WrittenPath := (WrittenPath.ofPlace []).child usualName
  have plain : path.names.any (·.contains '\x00') = false := by
    show [usualName].any _ = false
    simp [usualName]
  have short : Tree.isLongPath path = false := by decide +kernel
  have file : (treeWith content).file? [] path = .ok (some [usualName]) := by
    rw [Tree.file?, plain, short]
    with_unfolding_all rfl
  show firstFile (treeWith content) [] [path] = _
  rw [firstFile, file]
  rfl

theorem loadSingle_of_identical {text : List Char} {value : Value}
    (same : (Yaml.loadSingle text).toOption.any (·.identical value) = true) :
    Yaml.loadSingle text = .ok value := by
  cases loaded : Yaml.loadSingle text with
  | error failure =>
    rw [loaded] at same
    cases same
  | ok other =>
    rw [loaded] at same
    rw [Value.eq_of_identical same]

def listedPattern : String :=
  "exclude:\n- old/*\n"

theorem listed_pattern_is_honoured :
    locate (treeWith listedPattern) [] none none = .ok (some atTop) ∧
      (treeWith listedPattern).content? atTop.place = some listedPattern.toUTF8.data.toList ∧
      decodeUtf8 listedPattern.toUTF8.data.toList = .ok listedPattern.toList ∧
      IsHonouredOrRefused listedPattern.toList (load (treeWith listedPattern) [] none none) := by
  have located := locate_treeWith listedPattern
  have held : (treeWith listedPattern).content? atTop.place =
    some listedPattern.toUTF8.data.toList := rfl
  have utf8 : decodeUtf8 listedPattern.toUTF8.data.toList = .ok listedPattern.toList := rfl
  have loaded : Yaml.loadSingle listedPattern.toList =
      .ok (.map [(.text "exclude", .list [.text "old/*"])]) :=
    loadSingle_of_identical (by decide +kernel)
  have sound : IsSoundText listedPattern.toList := by
    rw [isSoundText_iff loaded]
    exact
      { severity := nofun
        ignoreRules := trivial
        exclude := fun _ => rfl
        threads := fun _ _ uncounted => by cases uncounted
        kept := fun _ _ _ => ⟨trivial, ["old/*"], rfl⟩ }
  exact ⟨located, held, utf8, (config_is_honoured_or_refused_iff located held utf8).mpr sound⟩

def singlePattern : String :=
  "exclude: old/*\n"

/-- A single pattern is taken for the list of its characters. One of them matches every path. -/
theorem single_pattern_excludes_others :
    ¬ IsHonouredOrRefused singlePattern.toList (load (treeWith singlePattern) [] none none) ∧
      Glob.accepts "old/*" ".gitlab-ci.yml" = false ∧
      ∃ config, load (treeWith singlePattern) [] none none = .ok config ∧
        config.excludes ".gitlab-ci.yml" = .ok true := by
  have loads : load (treeWith singlePattern) [] none none =
      read atTop.path singlePattern.toUTF8.data.toList :=
    load_of_locate (locate_treeWith singlePattern) rfl
  have loaded : Yaml.loadSingle singlePattern.toList = .ok
      (.map [(.text "exclude", .text "old/*")]) :=
    loadSingle_of_identical (by decide +kernel)
  rw [loads]
  refine ⟨?_, by decide +kernel, ?_⟩
  · rw [isHonouredOrRefused_read_iff atTop.path rfl, isSoundText_iff loaded]
    intro sound
    obtain ⟨-, code, kept⟩ := sound.kept .low rfl rfl
    have long := (length_kept code).2
    rw [← kept] at long
    exact absurd long (by decide)
  · have excluded : ((read atTop.path singlePattern.toUTF8.data.toList).toOption.bind fun config =>
        (config.excludes ".gitlab-ci.yml").toOption) = some true := by decide +kernel
    obtain ⟨config, made, taken⟩ := Option.bind_eq_some_iff.mp excluded
    exact ⟨config, toOption_eq_some.mp made, toOption_eq_some.mp taken⟩

end SupplyLint.ConfigFile
