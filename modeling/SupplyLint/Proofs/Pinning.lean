import SupplyLint.Proofs.Image

/-! # Texts that pin a package

A package is pinned by what a text ends with: behind the last `@` of an action stands
a commit hash, or behind the first `@` of an image a digest. A tag starts behind the
last colon, so that none is taken for a digest (`Apart.hasDigest_iff`).
`isMovable_of_ofAction`: the reference that is made of a text is pinned unless its
owner can move what the text names. -/
set_option autoImplicit false

namespace SupplyLint.PackageRef

open SupplyLint.Text

def Decides (test : Except Fault Bool) (condition : Prop) : Prop :=
  ∃ holds, test = .ok holds ∧ (holds = true ↔ condition)

theorem decides_ok {holds : Bool} {condition : Prop} (same : holds = true ↔ condition) :
    Decides (.ok holds) condition :=
  ⟨holds, rfl, same⟩

theorem Decides.congr {test : Except Fault Bool} {condition other : Prop}
    (decides : Decides test condition) (same : condition ↔ other) : Decides test other := by
  obtain ⟨holds, found, tells⟩ := decides
  exact ⟨holds, found, tells.trans same⟩

/-! ## Hashes -/

/-- A text of so many lower case hexadecimal digits. -/
def IsHash (count : Nat) (text : List Char) : Prop :=
  text.length = count ∧ ∀ c ∈ text, c ∈ "0123456789abcdef".toList

def IsDigest (text : List Char) : Prop :=
  ∃ hash, text = "sha256:".toList ++ hash ∧ IsHash 64 hash

theorem isLowerHex_iff {c : Char} : isLowerHex c = true ↔ c ∈ "0123456789abcdef".toList := by
  constructor
  · have checked : ∀ code < 103, isLowerHex (Char.ofNat code) = true →
        Char.ofNat code ∈ "0123456789abcdef".toList := by decide
    intro digit
    have bound : c.toNat < 103 := by
      simp only [isLowerHex, Bool.or_eq_true, Bool.and_eq_true, decide_eq_true_iff, Char.le_def,
        UInt32.le_iff_toNat_le] at digit
      have codes : '9'.val.toNat = 57 ∧ 'f'.val.toNat = 102 := by decide
      show c.val.toNat < 103
      omega
    rw [← Char.ofNat_toNat c] at digit ⊢
    exact checked c.toNat bound digit
  · exact List.all_eq_true.mp (by decide) c

theorem isCommitHash_iff {text : String} : isCommitHash text = true ↔ IsHash 40 text.toList := by
  simp only [isCommitHash, IsHash, Bool.and_eq_true, beq_iff_eq, List.all_eq_true, isLowerHex_iff]

theorem isImageDigest_iff {text : String} : isImageDigest text = true ↔ IsDigest text.toList := by
  unfold isImageDigest IsDigest
  simp only [← afterPrefix?_eq_some]
  cases afterPrefix? "sha256:".toList text.toList with
  | none => simp
  | some digits =>
    simp [IsHash, isLowerHex_iff]

/-! ## References made of texts -/

/-- A ref that pins a package of a scheme. -/
def Pins (scheme : String) (ref : Option String) : Prop :=
  ∃ text ∈ ref, if scheme = imageScheme then IsDigest text.toList else IsHash 40 text.toList

def IsPlain (name : String) (ref : Option String) : Prop :=
  '$' ∉ name.toList ∧ ∀ text ∈ ref, '$' ∉ text.toList

theorem decides_refHas {form : String → Bool} (fails : form "" = false) (ref : Option String) :
    Decides (refHas form (ref.elim .null .text)) (∃ text ∈ ref, form text = true) := by
  cases ref with
  | none => exact decides_ok (by simp)
  | some text =>
    by_cases empty : text = ""
    · subst empty
      exact decides_ok (by simp [fails])
    · have present : (Value.text text).present = true := by simpa [Value.present] using empty
      rw [Option.elim_some, refHas, if_pos present]
      exact decides_ok (by simp)

section OfTexts
variable (scheme name : String) (ref subpath : Option String)

theorem decides_isPinned :
    Decides (ofTexts scheme name ref subpath).isPinned (Pins scheme ref) := by
  have digest : isImageDigest "" = false := by decide
  have commit : isCommitHash "" = false := by decide
  unfold Pins
  show Decides (if scheme = imageScheme then refHas isImageDigest (ref.elim .null .text)
    else refHas isCommitHash (ref.elim .null .text)) _
  by_cases image : scheme = imageScheme
  · simp only [if_pos image, ← isImageDigest_iff]
    exact decides_refHas digest ref
  · simp only [if_neg image, ← isCommitHash_iff]
    exact decides_refHas commit ref

theorem decides_isTemplated :
    Decides (ofTexts scheme name ref subpath).isTemplated (¬ IsPlain name ref) := by
  have inText (text : String) : contains text "$" = true ↔ '$' ∈ text.toList := by
    rw [show "$" = String.singleton '$' by decide, contains_singleton_iff]
  unfold isTemplated IsPlain
  by_cases inName : contains name "$" = true
  · rw [if_pos (show contains (ofTexts scheme name ref subpath).name "$" = true from inName)]
    exact decides_ok (by simp [(inText name).mp inName])
  · rw [if_neg (show ¬ contains (ofTexts scheme name ref subpath).name "$" = true from inName)]
    rw [inText] at inName
    cases ref with
    | none => exact decides_ok (by simp [inName])
    | some text =>
      by_cases empty : text = ""
      · subst empty
        exact decides_ok (by simp [inName])
      · have present : (ofTexts scheme name (some text) subpath).ref.present = true := by
          simpa [ofTexts, Value.present] using empty
        rw [if_pos present]
        exact decides_ok (by simp [inName, inText])

end OfTexts

theorem mem_bind_part {ref : Option (List Char)} {text : String} :
    text ∈ ref.bind part ↔ ∃ written ∈ ref, written ≠ [] ∧ text = String.ofList written := by
  cases ref with
  | none => simp
  | some written =>
    by_cases empty : written = []
    · simp [part, empty]
    · rw [Option.bind_some, part, if_neg (by simpa using empty)]
      simp [empty, eq_comm]

/-- A reference made of texts: it has no variable if a text has none, and is pinned under a
condition. -/
def IsMadeOf (package : PackageRef) (text : List Char) (pinned : Prop) : Prop :=
  ∃ scheme ∈ hashedSchemes, ∃ name ref subpath, package = ofTexts scheme name ref subpath ∧
    ('$' ∉ text → IsPlain name ref) ∧ (Pins scheme ref ↔ pinned)

theorem IsMadeOf.imp {package : PackageRef} {text other : List Char} {pinned same : Prop}
    (made : IsMadeOf package text pinned) (subset : text ⊆ other) (iff : pinned ↔ same) :
    IsMadeOf package other same := by
  obtain ⟨scheme, known, name, ref, subpath, rfl, plain, pins⟩ := made
  exact ⟨scheme, known, name, ref, subpath, rfl, fun absent => plain fun inside =>
    absent (subset inside), pins.trans iff⟩

theorem isPlain_of_subset {name text : List Char} {ref : Option (List Char)} (absent : '$' ∉ text)
    (inName : name ⊆ text) (inRef : ∀ written ∈ ref, written ⊆ text) :
    IsPlain (String.ofList name) (ref.bind part) := by
  refine ⟨fun inside => absent (inName (by simpa using inside)), fun written given inside => ?_⟩
  obtain ⟨chars, found, -, rfl⟩ := mem_bind_part.mp given
  exact absent (inRef chars found (by simpa using inside))

/-! ## Images -/

/-- Behind the first `@` of a trimmed text stands a digest. -/
def HasDigest (image : List Char) : Prop :=
  ∃ name digest, trimBy isBlank image = name ++ '@' :: digest ∧ '@' ∉ name ∧ IsDigest digest

theorem not_isHash_nil {count : Nat} (positive : 0 < count) : ¬ IsHash count [] := by
  rintro ⟨length, -⟩
  exact absurd length (by simpa using Nat.ne_of_lt positive)

theorem not_isDigest_nil : ¬ IsDigest [] := by
  rintro ⟨hash, whole, -⟩
  simp at whole

theorem pins_bind_part {scheme : String} {ref : Option (List Char)} :
    Pins scheme (ref.bind part) ↔
      ∃ written ∈ ref, if scheme = imageScheme then IsDigest written else IsHash 40 written := by
  unfold Pins
  simp only [mem_bind_part]
  constructor
  · rintro ⟨-, ⟨written, given, -, rfl⟩, hashed⟩
    exact ⟨written, given, by simpa using hashed⟩
  · rintro ⟨written, given, hashed⟩
    refine ⟨String.ofList written, ⟨written, given, ?_, rfl⟩, by simpa using hashed⟩
    rintro rfl
    split at hashed
    · exact not_isDigest_nil hashed
    · exact not_isHash_nil (by decide) hashed

/-- The ref of an image is a digest only where the image has one: a digest has a colon, and a tag
has none. -/
theorem ImageParts.Apart.hasDigest_iff {parts : ImageParts} (apart : parts.Apart) :
    (∃ ref ∈ parts.digest.or parts.tag, IsDigest ref) ↔
      ∃ name digest, parts.text = name ++ '@' :: digest ∧ '@' ∉ name ∧ IsDigest digest := by
  have absent := apart.not_mem
  rw [ImageParts.text, ← List.append_assoc]
  cases parts.digest with
  | some own =>
    rw [show marked '@' (some own) = '@' :: own from rfl, Option.some_or]
    constructor
    · rintro ⟨ref, given, digest⟩
      obtain rfl := Option.some.inj (Option.mem_def.mp given)
      exact ⟨_, own, rfl, absent, digest⟩
    · rintro ⟨name, digest, whole, first, is⟩
      have cut := cutFirst_append absent own
      rw [whole, cutFirst_append first] at cut
      obtain ⟨-, rfl⟩ := Prod.mk.inj (Option.some.inj cut)
      exact ⟨digest, rfl, is⟩
  | none =>
    rw [show marked '@' none = [] from rfl, List.append_nil, Option.none_or]
    refine iff_of_false ?_ ?_
    · rintro ⟨tag, given, hash, rfl, -⟩
      exact (apart.tag _ given).2.1 (by simp)
    · rintro ⟨name, digest, whole, -⟩
      exact absent (by simp [whole])

theorem isMadeOf_of_ofImage {text : String} {package : PackageRef}
    (made : ofImage text = some package) :
    IsMadeOf package text.toList (HasDigest text.toList) := by
  obtain ⟨parts, apart, whole, -, rfl⟩ := ofImage_eq_some_iff.mp made
  have inside : parts.text ⊆ text.toList := fun c found => mem_of_mem_trimBy (whole ▸ found)
  have inRef : ∀ ref ∈ parts.digest.or parts.tag, ref ⊆ text.toList :=
    fun ref given => List.Subset.trans (parts.ref_suffix ref given).subset inside
  refine ⟨imageScheme, by simp [hashedSchemes], _, _, none, parts.package_eq, fun absent => ?_, ?_⟩
  · exact isPlain_of_subset absent (List.Subset.trans parts.name_prefix.subset inside) inRef
  · rw [pins_bind_part, HasDigest, ← whole, ← apart.hasDigest_iff]
    simp only [if_true]

/-! ## Actions -/

def IsLocal (uses : List Char) : Prop :=
  "./".toList <+: uses ∨ "../".toList <+: uses

/-- Behind the last `@` stands a commit hash, which has no `@` itself. -/
def HasCommit (uses : List Char) : Prop :=
  ∃ path hash, uses = path ++ '@' :: hash ∧ IsHash 40 hash

/-- Two segments that are not empty stand at the head of a path. -/
def StartsWithRepository (path : List Char) : Prop :=
  ∃ owner repository rest, path = owner ++ '/' :: (repository ++ rest) ∧
    (owner ≠ [] ∧ '/' ∉ owner) ∧
    (repository ≠ [] ∧ '/' ∉ repository) ∧ ∀ c ∈ rest.head?, c = '/'

/-- What stands before the last `@`, or all of a text without one, starts with a repository. -/
def NamesRepository (uses : List Char) : Prop :=
  ∃ path ref, uses = path ++ marked '@' ref ∧ (∀ text ∈ ref, '@' ∉ text) ∧
    (ref = none → '@' ∉ path) ∧ StartsWithRepository path

/-- A text names an image or an action of another repository, and no hash with it: its owner can
move what it names. -/
def IsMovable (uses : List Char) : Prop :=
  ¬ IsLocal uses ∧
    ((∃ image, uses = "docker://".toList ++ image ∧ (ofImage (String.ofList image)).isSome = true ∧
        ¬ HasDigest image) ∨
      ((∀ image, uses = "docker://".toList ++ image → ofImage (String.ofList image) = none) ∧
        NamesRepository uses ∧ ¬ HasCommit uses))

theorem startsWithRepository_iff {path : List Char} :
    StartsWithRepository path ↔
      ∃ owner repository more, pieces '/' path = owner :: repository :: more ∧ owner ≠ [] ∧
        repository ≠ [] := by
  constructor
  · rintro ⟨owner, repository, rest, rfl, ⟨owned, inOwner⟩, ⟨named, inRepository⟩, ends⟩
    rw [pieces_append inOwner]
    cases rest with
    | nil =>
      rw [List.append_nil, pieces_of_not_mem inRepository]
      exact ⟨owner, repository, [], rfl, owned, named⟩
    | cons c rest =>
      obtain rfl := ends c rfl
      rw [pieces_append inRepository]
      exact ⟨owner, repository, pieces '/' rest, rfl, owned, named⟩
  · rintro ⟨owner, repository, more, cut, owned, named⟩
    obtain ⟨first, inFirst, ⟨-, single⟩ | ⟨rest, rfl, several⟩⟩ := pieces_cases '/' path
    · rw [single] at cut
      cases cut
    · rw [several] at cut
      obtain ⟨rfl, next⟩ := List.cons.inj cut
      obtain ⟨second, inSecond, ⟨rfl, single⟩ | ⟨last, rfl, several⟩⟩ := pieces_cases '/' rest
      · rw [single] at next
        obtain ⟨rfl, -⟩ := List.cons.inj next
        exact ⟨first, rest, [], by simp, ⟨owned, inFirst⟩, ⟨named, inSecond⟩, by simp⟩
      · rw [several] at next
        obtain ⟨rfl, -⟩ := List.cons.inj next
        exact ⟨first, second, '/' :: last, rfl, ⟨owned, inFirst⟩, ⟨named, inSecond⟩, by simp⟩

def repositoryRef (uses : List Char) : Option PackageRef :=
  match pieces '/' (splitRef uses).1 with
  | owner :: repository :: more =>
    if owner.isEmpty || repository.isEmpty then none
    else some (ofTexts actionScheme (String.ofList owner ++ "/" ++ String.ofList repository)
      ((splitRef uses).2.bind part) (part ("/".intercalate (more.map String.ofList)).toList))
  | _ => none

theorem splitRef_subset (uses : List Char) :
    (splitRef uses).1 ⊆ uses ∧ ∀ ref ∈ (splitRef uses).2, ref ⊆ uses := by
  rcases split : splitRef uses with ⟨path, ref⟩
  obtain ⟨rfl, -, -⟩ := eq_marked_of_splitRef split
  cases ref with
  | none => simp [marked]
  | some ref => simp [marked]

theorem namesRepository_iff {uses : List Char} :
    NamesRepository uses ↔ StartsWithRepository (splitRef uses).1 := by
  constructor
  · rintro ⟨path, ref, rfl, inRef, noRef, starts⟩
    rwa [splitRef_marked inRef noRef]
  · intro starts
    rcases split : splitRef uses with ⟨path, ref⟩
    obtain ⟨whole, inRef, noRef⟩ := eq_marked_of_splitRef split
    rw [split] at starts
    exact ⟨path, ref, whole, inRef, noRef, starts⟩

theorem hasCommit_iff {uses : List Char} :
    HasCommit uses ↔ ∃ hash ∈ (splitRef uses).2, IsHash 40 hash := by
  constructor
  · rintro ⟨path, hash, rfl, is⟩
    have absent : '@' ∉ hash := fun inside => absurd (is.2 '@' inside) (by decide)
    have apart : ∀ text ∈ some hash, '@' ∉ text := by simpa using absent
    have split : splitRef (path ++ '@' :: hash) = (path, some hash) :=
        splitRef_marked apart (by simp)
    exact ⟨hash, by rw [split]; rfl, is⟩
  · rintro ⟨hash, given, is⟩
    rcases split : splitRef uses with ⟨path, ref⟩
    obtain ⟨rfl, -, -⟩ := eq_marked_of_splitRef split
    rw [split] at given
    obtain rfl := Option.mem_def.mp given
    exact ⟨path, hash, rfl, is⟩

theorem isSome_repositoryRef {uses : List Char} :
    (repositoryRef uses).isSome = true ↔ NamesRepository uses := by
  rw [namesRepository_iff, startsWithRepository_iff, repositoryRef]
  split
  · next owner repository more cut =>
    constructor
    · intro found
      split at found
      · cases found
      · next filled =>
        obtain ⟨owned, named⟩ : owner ≠ [] ∧ repository ≠ [] := by simpa using filled
        exact ⟨owner, repository, more, cut, owned, named⟩
    · rintro ⟨first, second, rest, same, owned, named⟩
      obtain ⟨rfl, rfl, rfl⟩ : owner = first ∧ repository = second ∧ more = rest := by
        simpa [cut] using same
      rw [if_neg (by simp [owned, named])]
      rfl
  · next short =>
    refine iff_of_false (by simp) ?_
    rintro ⟨owner, repository, more, cut, -⟩
    exact short owner repository more cut

theorem isMadeOf_of_repositoryRef {uses : List Char} {package : PackageRef}
    (made : repositoryRef uses = some package) : IsMadeOf package uses (HasCommit uses) := by
  rw [repositoryRef] at made
  split at made
  · next owner repository more cut =>
    split at made
    · cases made
    · obtain rfl := Option.some.inj made
      obtain ⟨inPath, inRef⟩ := splitRef_subset uses
      have inOwner : owner ⊆ uses :=
        List.Subset.trans (subset_of_mem_pieces (cut ▸ List.mem_cons_self)) inPath
      have inRepository : repository ⊆ uses :=
        List.Subset.trans
          (subset_of_mem_pieces (cut ▸ List.mem_cons_of_mem _ List.mem_cons_self)) inPath
      refine ⟨actionScheme, by simp [hashedSchemes], _, _, _, rfl, fun absent => ⟨?_, ?_⟩, ?_⟩
      · have apart : '$' ∉ owner ∧ '$' ∉ repository :=
          ⟨fun inside => absent (inOwner inside), fun inside => absent (inRepository inside)⟩
        simp [apart]
      · exact (isPlain_of_subset absent inPath inRef).2
      · rw [pins_bind_part, hasCommit_iff]
        simp only [show actionScheme ≠ imageScheme by decide, if_false]
  · cases made

instance (uses : List Char) : Decidable (IsLocal uses) :=
  inferInstanceAs (Decidable ("./".toList <+: uses ∨ "../".toList <+: uses))

def usesRef (uses : List Char) : Option PackageRef :=
  if IsLocal uses then none
  else match afterPrefix? "docker://".toList uses with
    | some image => ofImage (String.ofList image)
    | none => repositoryRef uses

theorem ofAction_eq (text : String) : ofAction text = usesRef (trimBy isBlank text.toList) := by
  unfold ofAction trim
  generalize trimBy isBlank text.toList = uses
  have isLocal :
      (hasPrefix (String.ofList uses) "./" || hasPrefix (String.ofList uses) "../") = true ↔
        IsLocal uses := by
    simp only [hasPrefix, Bool.or_eq_true, isSome_afterPrefix?, String.toList_ofList, IsLocal]
  dsimp only
  rw [usesRef]
  by_cases inside : IsLocal uses
  · rw [if_pos inside, if_pos]
    rw [Bool.or_assoc, Bool.or_eq_true]
    exact Or.inr (isLocal.mpr inside)
  · rw [if_neg inside]
    cases uses with
    | nil => rfl
    | cons c rest =>
      rw [if_neg]
      · have written : (String.ofList (c :: rest)).toList = c :: rest := String.toList_ofList
        rw [written]
        cases afterPrefix? "docker://".toList (c :: rest) with
        | some image => rfl
        | none =>
          rcases cut : pieces '/' (splitRef (c :: rest)).1 with _ | ⟨owner, _ | ⟨repository, more⟩⟩
          all_goals simp [repositoryRef, ofTexts, refPart_eq, cut]
      · rw [Bool.or_assoc, Bool.or_eq_true, isLocal]
        simp [inside]

theorem not_isLocal_docker (image : List Char) : ¬ IsLocal ("docker://".toList ++ image) := by
  simp [IsLocal]

theorem not_namesRepository_docker (image : List Char) :
    ¬ NamesRepository ("docker://".toList ++ image) := by
  rintro ⟨path, ref, whole, -, -, owner, repository, rest, rfl, ⟨-, inOwner⟩,
    ⟨named, inRepository⟩, -⟩
  have cut : cutFirst '/' ("docker:".toList ++ '/' :: '/' :: image) =
      some ("docker:".toList, '/' :: image) := cutFirst_append (by decide) _
  have same : "docker:".toList ++ '/' :: '/' :: image =
      owner ++ '/' :: (repository ++ (rest ++ marked '@' ref)) := by simpa using whole
  rw [same, cutFirst_append inOwner] at cut
  obtain ⟨-, next⟩ := Prod.mk.inj (Option.some.inj cut)
  cases repository with
  | nil => exact named rfl
  | cons c repository =>
    obtain ⟨rfl, -⟩ := List.cons.inj next
    exact inRepository List.mem_cons_self

theorem isMovable_docker {image : List Char}
    (found : (ofImage (String.ofList image)).isSome = true) :
    IsMovable ("docker://".toList ++ image) ↔ ¬ HasDigest image := by
  constructor
  · rintro ⟨-, ⟨other, same, -, moved⟩ | ⟨-, named, -⟩⟩
    · rwa [List.append_cancel_left same]
    · exact absurd named (not_namesRepository_docker image)
  · exact fun moved => ⟨not_isLocal_docker image, Or.inl ⟨image, rfl, found, moved⟩⟩

theorem isMovable_path {uses : List Char} (isPath : ¬ IsLocal uses)
    (noImage : ∀ image, uses ≠ "docker://".toList ++ image) :
    IsMovable uses ↔ NamesRepository uses ∧ ¬ HasCommit uses := by
  constructor
  · rintro ⟨-, ⟨image, same, -⟩ | ⟨-, named, moved⟩⟩
    · exact absurd same (noImage image)
    · exact ⟨named, moved⟩
  · exact fun named => ⟨isPath, Or.inr ⟨fun image same => absurd same (noImage image), named⟩⟩

/-- What is made of a text tells whether the text is movable: a reference by whether it is pinned,
and no text is of which none is made. -/
def Judges (made : Option PackageRef) (uses : List Char) : Prop :=
  (∀ package, made = some package → IsMadeOf package uses (¬ IsMovable uses)) ∧
    (made = none → ¬ IsMovable uses)

theorem judges_local {uses : List Char} (inside : IsLocal uses) : Judges none uses :=
  ⟨by simp, fun _ movable => movable.1 inside⟩

theorem judges_docker (image : List Char) :
    Judges (ofImage (String.ofList image)) ("docker://".toList ++ image) := by
  constructor
  · intro package made
    refine (isMadeOf_of_ofImage made).imp ?_ ?_
    · rw [String.toList_ofList]
      exact List.subset_append_right _ _
    · rw [String.toList_ofList, isMovable_docker (by rw [made]; rfl), not_not]
  · rintro missing ⟨-, ⟨other, same, found, -⟩ | ⟨-, named, -⟩⟩
    · rw [← List.append_cancel_left same, missing] at found
      cases found
    · exact not_namesRepository_docker image named

theorem judges_path {uses : List Char} (isPath : ¬ IsLocal uses)
    (noImage : ∀ image, uses ≠ "docker://".toList ++ image) : Judges (repositoryRef uses) uses := by
  have movable := isMovable_path isPath noImage
  rw [← isSome_repositoryRef] at movable
  constructor
  · intro package made
    exact (isMadeOf_of_repositoryRef made).imp (List.Subset.refl uses) (by simp [movable, made])
  · intro missing
    simp [movable, missing]

theorem judges_usesRef (uses : List Char) : Judges (usesRef uses) uses := by
  rw [usesRef]
  by_cases inside : IsLocal uses
  · rw [if_pos inside]
    exact judges_local inside
  · rw [if_neg inside]
    cases start : afterPrefix? "docker://".toList uses with
    | some image =>
      obtain rfl := afterPrefix?_eq_some.mp start
      exact judges_docker image
    | none =>
      refine judges_path inside fun image same => ?_
      rw [afterPrefix?_eq_some.mpr same] at start
      cases start

/-- The reference that is made of a text is pinned unless the text is movable; a text of which none
is made is not. -/
theorem isMovable_of_ofAction (text : String) :
    (∀ package, ofAction text = some package →
      IsMadeOf package text.toList (¬ IsMovable (trimBy isBlank text.toList))) ∧
      (ofAction text = none → ¬ IsMovable (trimBy isBlank text.toList)) := by
  obtain ⟨ofSome, ofNone⟩ := judges_usesRef (trimBy isBlank text.toList)
  rw [ofAction_eq]
  exact ⟨fun package made => (ofSome package made).imp
    (fun _ inside => mem_of_mem_trimBy inside) Iff.rfl, ofNone⟩

end SupplyLint.PackageRef
