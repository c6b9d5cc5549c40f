import SupplyLint.Proofs.Gitlab.Refusals
import SupplyLint.Proofs.Package

/-! # What becomes of an include

Every include comes to one of four ends: its file is merged, it makes a package, a
problem is noted for it, or it names a package whose name is empty. An account lists
the includes of a pipeline with their ends, those of a file right behind the include
that opens it. A pipeline has no more than one account. -/
set_option autoImplicit false

namespace SupplyLint.Gitlab

open SupplyLint.Text

/-! ## Accounts -/

/-- What becomes of an include. -/
inductive Fate
  | merged (target : String)
  | referenced (ref : PackageRef)
  | nameless
  | noted (problem : Problem)

/-- Includes and what becomes of them. -/
abbrev Account := List (Value × Fate)

namespace Account

def reference? : Fate → Option PackageRef
  | .referenced ref => some ref
  | _ => none

def problem? : Fate → Option Problem
  | .noted problem => some problem
  | _ => none

def references (account : Account) : List PackageRef :=
  account.filterMap fun entry => reference? entry.2

def problems (account : Account) : List Problem :=
  account.filterMap fun entry => problem? entry.2

section Entries
variable {first second account : Account} {item : Value}

@[simp] theorem references_nil : references [] = [] := rfl

@[simp] theorem problems_nil : problems [] = [] := rfl

@[simp] theorem references_append :
    references (first ++ second) = references first ++ references second :=
  List.filterMap_append

@[simp] theorem problems_append : problems (first ++ second) = problems first ++ problems second :=
  List.filterMap_append

@[simp] theorem references_cons {fate : Fate} :
    references ((item, fate) :: account) = (reference? fate).toList ++ references account := by
  cases fate <;> rfl

@[simp] theorem problems_cons {fate : Fate} :
    problems ((item, fate) :: account) = (problem? fate).toList ++ problems account := by
  cases fate <;> rfl

end Entries

end Account

/-! ## What an include comes to -/

/-- An include names a package: the name that it is reduced to, and the reference that it makes. -/
inductive NamesPackage : Value → String → Option PackageRef → Prop
  | project {entries : Entries} {text : String}
      (elsewhere : ¬ Value.hasField entries "local" = true)
      (has : Value.hasField entries "project" = true)
      (read : (Value.field entries "project").toText = .ok text) :
      NamesPackage (.map entries) (PackageRef.projectName text)
        (PackageRef.ofGitlabProject text (Value.field entries "ref"))
  | component {entries : Entries} {text : String}
      (elsewhere : ¬ Value.hasField entries "local" = true)
      (other : ¬ Value.hasField entries "project" = true)
      (has : Value.hasField entries "component" = true)
      (read : (Value.field entries "component").toText = .ok text) :
      NamesPackage (.map entries) (PackageRef.componentName text)
        (PackageRef.ofGitlabComponent text)

/-- An include names a file of the repository, by its path from the root. -/
def NamesFile (item : Value) (target : String) : Prop :=
  ∃ written, Include.ofValue item = .ok (.file written) ∧ stripped written = target

/-- An include names a file that may be opened from a chain of files. -/
structure MayOpen (chain : List String) (item : Value) (target : String) : Prop where
  names : NamesFile item target
  plain : ¬ contains target "*" = true
  outside : target ∉ chain
  room : chain.length < maxFiles

section PassedOver
variable (resolve : Resolver) (path location : String) (chain : List String) (item : Value)

/-- Why an include is passed over, with the problem that is noted for it. -/
inductive PassedOver : Problem → Prop
  | malformed (read : Include.ofValue item = .ok .malformed) :
      PassedOver ⟨.unknownField, path, "include entry is not a string or mapping", location⟩
  | elsewhere {what : String} (read : Include.ofValue item = .ok (.elsewhere what)) :
      PassedOver ⟨.unresolved, path,
        what ++ " is not part of the repository and was not scanned", location⟩
  | wildcard {target : String} (names : NamesFile item target)
      (wildcard : contains target "*" = true) :
      PassedOver ⟨.unresolved, path, "wildcard include '" ++ target ++ "' is not supported",
        "include"⟩
  | refused {target : String} (names : NamesFile item target)
      (plain : ¬ contains target "*" = true) (refused : target ∈ chain ∨ maxFiles ≤ chain.length) :
      PassedOver ⟨.unresolved, path, refusal target, "include"⟩
  | missing {target : String} (opens : MayOpen chain item target)
      (missing : resolve target = .ok none) :
      PassedOver ⟨.unresolved, path, "included file '" ++ target ++ "' not found", "include"⟩
  | unparsable {target message : String} {content : List UInt8} (opens : MayOpen chain item target)
      (found : resolve target = .ok (some content))
      (broken : outcome (configuration target content) = .ok none)
      (notes : noted (configuration target content) = [⟨.unparsable, target, message, ""⟩]) :
      PassedOver ⟨.unparsable, target, message, ""⟩

end PassedOver

/-- The entries of a file with what it includes, given what that is merged to. -/
def withIncluded (raw included : Entries) : Entries :=
  match Value.field raw "include" with
  | .null => raw
  | _ => Field.merge included (Keyed.erase raw (.text "include"))

/-- The account of a list of includes that is merged into entries, one include after another. The
includes of a file that is merged have their own account, right behind the include that opens it. -/
inductive Accounted (resolve : Resolver) (path : String) :
    String → List String → List Value → Entries → Entries → Account → Prop
  | nil {location : String} {chain : List String} {entries : Entries} :
      Accounted resolve path location chain [] entries entries []
  | merged {location target : String} {chain : List String} {item : Value} {rest : List Value}
      {raw below before after : Entries} {nested account : Account}
      (opens : MayOpen chain item target) (found : opened resolve target = .ok (some raw))
      (inner : Accounted resolve path "include" (chain ++ [target])
        (includeItems raw) [] below nested)
      (later : Accounted resolve path location chain rest
        (Field.merge before (withIncluded raw below)) after account) :
      Accounted resolve path location chain (item :: rest) before after
        ((item, .merged target) :: (nested ++ account))
  | referenced {location name : String} {chain : List String} {item : Value} {rest : List Value}
      {before after : Entries} {ref : PackageRef} {account : Account}
      (names : NamesPackage item name (some ref))
      (later : Accounted resolve path location chain rest before after account) :
      Accounted resolve path location chain (item :: rest) before after
        ((item, .referenced ref) :: account)
  | nameless {location : String} {chain : List String} {item : Value} {rest : List Value}
      {before after : Entries} {account : Account} (names : NamesPackage item "" none)
      (later : Accounted resolve path location chain rest before after account) :
      Accounted resolve path location chain (item :: rest) before after
        ((item, .nameless) :: account)
  | noted {location : String} {chain : List String} {item : Value} {rest : List Value}
      {before after : Entries} {problem : Problem} {account : Account}
      (passes : PassedOver resolve path location chain item problem)
      (later : Accounted resolve path location chain rest before after account) :
      Accounted resolve path location chain (item :: rest) before after
        ((item, .noted problem) :: account)

theorem NamesPackage.eq_none_iff {item : Value} {name : String} {ref : Option PackageRef}
    (names : NamesPackage item name ref) : ref = none ↔ name = "" := by
  cases names with
  | project => exact PackageRef.ofGitlabProject_eq_none_iff
  | component => exact PackageRef.ofGitlabComponent_eq_none_iff

theorem NamesPackage.read {item : Value} {name : String} {ref : Option PackageRef}
    (names : NamesPackage item name ref) : Include.ofValue item = .ok (.package ref) := by
  cases names with
  | project elsewhere has read =>
    rw [Include.ofValue, Include.ofEntries, if_neg elsewhere, if_pos has, read]
    rfl
  | component elsewhere other has read =>
    rw [Include.ofValue, Include.ofEntries, if_neg elsewhere, if_neg other, if_pos has, read]
    rfl

theorem exists_namesPackage {item : Value} {ref : Option PackageRef}
    (read : Include.ofValue item = .ok (.package ref)) : ∃ name, NamesPackage item name ref := by
  cases item with
  | text target =>
    simp only [Include.ofValue] at read
    split at read
    · cases Except.ok.inj read
    · cases Except.ok.inj read
  | map entries =>
    simp only [Include.ofValue, Include.ofEntries] at read
    split at read
    · obtain ⟨_, -, other⟩ := map_eq_ok.mp read
      cases other
    · next elsewhere =>
      split at read
      · next has =>
        obtain ⟨text, written, same⟩ := bind_eq_ok.mp read
        obtain rfl := Include.package.inj (Except.ok.inj same)
        exact ⟨_, .project elsewhere has written⟩
      · next other =>
        split at read
        · next has =>
          obtain ⟨text, written, same⟩ := map_eq_ok.mp read
          obtain rfl := Include.package.inj same
          exact ⟨_, .component elsewhere other has written⟩
        · obtain ⟨_, -, other⟩ := map_eq_ok.mp read
          cases other
  | _ => cases Except.ok.inj read

/-- The account of what the jobs of a configuration trigger, one job after another: of the files
that a job lists, and behind them of what the jobs of its child pipeline trigger. -/
inductive JobsAccounted (resolve : Resolver) : Layer → RawJobs → Account → Prop
  | nil {layer : Layer} : JobsAccounted resolve layer [] []
  | other {layer : Layer} {name : String} {value : Value} {rest : RawJobs} {account : Account}
      (starts : ∀ raw includes, layer.HasJob name raw → ¬ Starts raw includes)
      (later : JobsAccounted resolve layer rest account) :
      JobsAccounted resolve layer ((name, value) :: rest) account
  | empty {layer : Layer} {name : String} {value includes : Value} {rest : RawJobs} {raw : Entries}
      {files : ChildFiles} {own account : Account}
      (hasJob : layer.HasJob name raw) (starts : Starts raw includes)
      (opens : openedFiles resolve layer.chain layer.path name includes = .ok files)
      (listed : Accounted resolve layer.path (name ++ ".trigger.include") layer.chain
        includes.asList [] files.entries own)
      (noChild : childLayer layer.chain files = none)
      (later : JobsAccounted resolve layer rest account) :
      JobsAccounted resolve layer ((name, value) :: rest) (own ++ account)
  | child {layer child : Layer} {name : String} {value includes : Value} {rest jobs : RawJobs}
      {raw : Entries} {files : ChildFiles} {own below account : Account}
      (hasJob : layer.HasJob name raw) (starts : Starts raw includes)
      (opens : openedFiles resolve layer.chain layer.path name includes = .ok files)
      (listed : Accounted resolve layer.path (name ++ ".trigger.include") layer.chain
        includes.asList [] files.entries own)
      (made : childLayer layer.chain files = some child)
      (named : rawJobsOf child.entries = .ok jobs)
      (inner : JobsAccounted resolve child jobs below)
      (later : JobsAccounted resolve layer rest account) :
      JobsAccounted resolve layer ((name, value) :: rest) (own ++ (below ++ account))

/-! ## One account only -/

section Fates
variable (resolve : Resolver) (path location : String) (chain : List String)

def fileFate (target : String) : Option Fate :=
  if contains target "*" then
    some (.noted ⟨.unresolved, path, "wildcard include '" ++ target ++ "' is not supported",
      "include"⟩)
  else if target ∈ chain ∨ maxFiles ≤ chain.length then
    some (.noted ⟨.unresolved, path, refusal target, "include"⟩)
  else match resolve target with
    | .ok none =>
      some (.noted ⟨.unresolved, path, "included file '" ++ target ++ "' not found", "include"⟩)
    | .ok (some content) =>
      if outcome (configuration target content) matches .ok none then
        (noted (configuration target content)).head?.map .noted
      else some (.merged target)
    | .error _ => none

def fateOf (item : Value) : Option Fate :=
  match Include.ofValue item with
  | .ok .malformed =>
    some (.noted ⟨.unknownField, path, "include entry is not a string or mapping", location⟩)
  | .ok (.elsewhere what) =>
    some (.noted ⟨.unresolved, path, what ++ " is not part of the repository and was not scanned",
      location⟩)
  | .ok (.package none) => some .nameless
  | .ok (.package (some ref)) => some (.referenced ref)
  | .ok (.file written) => fileFate resolve path chain (stripped written)
  | .error _ => none

end Fates

section Unique
variable {resolve : Resolver} {path location : String} {chain : List String} {item : Value}

theorem fateOf_of_names {target : String} (names : NamesFile item target) :
    fateOf resolve path location chain item = fileFate resolve path chain target := by
  obtain ⟨written, read, rfl⟩ := names
  rw [fateOf, read]

theorem fileFate_of_mayOpen {target : String} (opens : MayOpen chain item target) :
    fileFate resolve path chain target = match resolve target with
      | .ok none =>
        some (.noted ⟨.unresolved, path, "included file '" ++ target ++ "' not found", "include"⟩)
      | .ok (some content) =>
        if outcome (configuration target content) matches .ok none then
          (noted (configuration target content)).head?.map .noted
        else some (.merged target)
      | .error _ => none := by
  have short := Nat.not_le.mpr opens.room
  rw [fileFate, if_neg opens.plain, if_neg (not_or.mpr ⟨opens.outside, short⟩)]

theorem PassedOver.fateOf_eq {problem : Problem}
    (passes : PassedOver resolve path location chain item problem) :
    fateOf resolve path location chain item = some (.noted problem) := by
  cases passes with
  | malformed read => rw [fateOf, read]
  | elsewhere read => rw [fateOf, read]
  | wildcard names wildcard => rw [fateOf_of_names names, fileFate, if_pos wildcard]
  | refused names plain refused =>
    rw [fateOf_of_names names, fileFate, if_neg plain, if_pos refused]
  | missing opens missing => rw [fateOf_of_names opens.names, fileFate_of_mayOpen opens, missing]
  | unparsable opens found broken notes =>
    rw [fateOf_of_names opens.names, fileFate_of_mayOpen opens, found]
    simp only [broken, notes]
    rfl

theorem MayOpen.fateOf_eq {target : String} {raw : Entries} (opens : MayOpen chain item target)
    (found : opened resolve target = .ok (some raw)) :
    fateOf resolve path location chain item = some (.merged target) := by
  obtain ⟨content, resolved, loaded⟩ := bind_eq_ok.mp found
  rw [fateOf_of_names opens.names, fileFate_of_mayOpen opens, resolved]
  cases content with
  | none => cases Except.ok.inj loaded
  | some content => simp only [loaded, if_false, Bool.false_eq_true]

theorem fateOf_of_referenced {name : String} {ref : PackageRef}
    (names : NamesPackage item name (some ref)) :
    fateOf resolve path location chain item = some (.referenced ref) := by
  rw [fateOf, names.read]

theorem fateOf_of_nameless {name : String} (names : NamesPackage item name none) :
    fateOf resolve path location chain item = some .nameless := by
  rw [fateOf, names.read]

theorem Accounted.of_cons {rest : List Value} {before after : Entries} {account : Account}
    (accounted : Accounted resolve path location chain (item :: rest) before after account) :
    ∃ fate, fateOf resolve path location chain item = some fate ∧
      match fate with
      | .merged target => ∃ raw below nested later, opened resolve target = .ok (some raw) ∧
          Accounted resolve path "include" (chain ++ [target]) (includeItems raw) [] below nested ∧
          Accounted resolve path location chain rest (Field.merge before (withIncluded raw below))
            after later ∧
          account = (item, .merged target) :: (nested ++ later)
      | _ => ∃ later, Accounted resolve path location chain rest before after later ∧
          account = (item, fate) :: later := by
  cases accounted with
  | merged opens found inner later =>
    exact ⟨_, opens.fateOf_eq found, _, _, _, _, found, inner, later, rfl⟩
  | referenced names later => exact ⟨_, fateOf_of_referenced names, _, later, rfl⟩
  | nameless names later => exact ⟨_, fateOf_of_nameless names, _, later, rfl⟩
  | noted passes later => exact ⟨_, passes.fateOf_eq, _, later, rfl⟩

theorem Accounted.unique {items : List Value} {before after other : Entries}
    {account again : Account}
    (accounted : Accounted resolve path location chain items before after account)
    (alsoAccounted : Accounted resolve path location chain items before other again) :
    after = other ∧ account = again := by
  induction accounted generalizing other again with
  | nil =>
    cases alsoAccounted
    exact ⟨rfl, rfl⟩
  | merged opens found inner later ihInner ihLater =>
    obtain ⟨fate, same, also⟩ := alsoAccounted.of_cons
    obtain rfl := Option.some.inj ((opens.fateOf_eq found).symm.trans same)
    obtain ⟨raw, below, nested, more, foundToo, innerToo, laterToo, rfl⟩ := also
    obtain rfl := Option.some.inj (Except.ok.inj (found.symm.trans foundToo))
    obtain ⟨rfl, rfl⟩ := ihInner innerToo
    obtain ⟨rfl, rfl⟩ := ihLater laterToo
    exact ⟨rfl, rfl⟩
  | referenced names later ih =>
    obtain ⟨fate, same, also⟩ := alsoAccounted.of_cons
    obtain rfl := Option.some.inj ((fateOf_of_referenced names).symm.trans same)
    obtain ⟨more, laterToo, rfl⟩ := also
    obtain ⟨rfl, rfl⟩ := ih laterToo
    exact ⟨rfl, rfl⟩
  | nameless names later ih =>
    obtain ⟨fate, same, also⟩ := alsoAccounted.of_cons
    obtain rfl := Option.some.inj ((fateOf_of_nameless names).symm.trans same)
    obtain ⟨more, laterToo, rfl⟩ := also
    obtain ⟨rfl, rfl⟩ := ih laterToo
    exact ⟨rfl, rfl⟩
  | noted passes later ih =>
    obtain ⟨fate, same, also⟩ := alsoAccounted.of_cons
    obtain rfl := Option.some.inj (passes.fateOf_eq.symm.trans same)
    obtain ⟨more, laterToo, rfl⟩ := also
    obtain ⟨rfl, rfl⟩ := ih laterToo
    exact ⟨rfl, rfl⟩

end Unique

theorem JobsAccounted.of_cons {resolve : Resolver} {layer : Layer} {name : String} {value : Value}
    {rest : RawJobs} {raw : Entries} {includes : Value} {files : ChildFiles} {account : Account}
    (accounted : JobsAccounted resolve layer ((name, value) :: rest) account)
    (hasJob : layer.HasJob name raw) (starts : Starts raw includes)
    (opens : openedFiles resolve layer.chain layer.path name includes = .ok files) :
    ∃ own later, Accounted resolve layer.path (name ++ ".trigger.include") layer.chain
        includes.asList [] files.entries own ∧
      JobsAccounted resolve layer rest later ∧
      match childLayer layer.chain files with
      | none => account = own ++ later
      | some inside => ∃ jobs below, rawJobsOf inside.entries = .ok jobs ∧
          JobsAccounted resolve inside jobs below ∧ account = own ++ (below ++ later) := by
  cases accounted with
  | other childless => exact absurd starts (childless _ _ hasJob)
  | empty hasJobToo startsToo opensToo listed noChild later =>
    obtain rfl := hasJob.unique hasJobToo
    obtain rfl := starts.unique startsToo
    obtain rfl := Except.ok.inj (opens.symm.trans opensToo)
    rw [noChild]
    exact ⟨_, _, listed, later, rfl⟩
  | child hasJobToo startsToo opensToo listed made named inner later =>
    obtain rfl := hasJob.unique hasJobToo
    obtain rfl := starts.unique startsToo
    obtain rfl := Except.ok.inj (opens.symm.trans opensToo)
    rw [made]
    exact ⟨_, _, listed, later, _, _, named, inner, rfl⟩

theorem JobsAccounted.unique {resolve : Resolver} {layer : Layer} {entries : RawJobs}
    {account again : Account} (accounted : JobsAccounted resolve layer entries account)
    (alsoAccounted : JobsAccounted resolve layer entries again) : account = again := by
  induction accounted generalizing again with
  | nil =>
    cases alsoAccounted
    rfl
  | other childless later ih =>
    cases alsoAccounted with
    | other _ laterToo => exact ih laterToo
    | empty hasJob starts => exact absurd starts (childless _ _ hasJob)
    | child hasJob starts => exact absurd starts (childless _ _ hasJob)
  | empty hasJob starts opens listed noChild later ih =>
    obtain ⟨own, more, listedToo, laterToo, same⟩ := alsoAccounted.of_cons hasJob starts opens
    rw [noChild] at same
    rw [same, (listed.unique listedToo).2, ih laterToo]
  | child hasJob starts opens listed made named inner later ihInner ihLater =>
    obtain ⟨own, more, listedToo, laterToo, same⟩ := alsoAccounted.of_cons hasJob starts opens
    rw [made] at same
    obtain ⟨jobs, below, namedToo, innerToo, rfl⟩ := same
    obtain rfl := Except.ok.inj (named.symm.trans namedToo)
    rw [(listed.unique listedToo).2, ihInner innerToo, ihLater laterToo]

/-- The account of a configuration: of what it includes, and then of what its jobs trigger once that
is merged into it. -/
def IsAccountOf (resolve : Resolver) (path : String) (raw : Entries) (account : Account) : Prop :=
  ∃ included entries jobs triggered,
    Accounted resolve path "include" [path] (includeItems raw) [] entries included ∧
    rawJobsOf (withIncluded raw entries) = .ok jobs ∧
    JobsAccounted resolve ⟨[path], path, [], withIncluded raw entries⟩ jobs triggered ∧
    account = included ++ triggered

theorem IsAccountOf.unique {resolve : Resolver} {path : String} {raw : Entries}
    {account again : Account} (isAccount : IsAccountOf resolve path raw account)
    (alsoAccount : IsAccountOf resolve path raw again) : account = again := by
  obtain ⟨included, entries, jobs, triggered, accounted, named, triggers, rfl⟩ := isAccount
  obtain ⟨_, _, _, _, accounted', named', triggers', rfl⟩ := alsoAccount
  obtain ⟨rfl, rfl⟩ := accounted.unique accounted'
  obtain rfl := Except.ok.inj (named.symm.trans named')
  rw [triggers.unique triggers']

end SupplyLint.Gitlab
