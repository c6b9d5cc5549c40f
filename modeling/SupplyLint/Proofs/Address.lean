import SupplyLint.Proofs.Package
import SupplyLint.Proofs.Text.Split

/-! # Package addresses are read back

An address is read by its first `#`, the first `/` before that, and the last `@`
between the two. `addresses_are_read_back`: a reference made of texts comes back
from its address exactly when no text of it holds a mark at which it would be
cut; and a text that is read at all is the address of what it is read as, but for
a ref and a subpath that are empty. -/
set_option autoImplicit false

namespace SupplyLint.PackageRef

open SupplyLint.Text

/-! ## The parts of an address -/

def marked (mark : Char) (part : Option (List Char)) : List Char :=
  part.elim [] (mark :: ·)

structure Parts where
  scheme : List Char
  name : List Char
  ref : Option (List Char)
  subpath : Option (List Char)

/-- What stands before the subpath. -/
def Parts.body (parts : Parts) : List Char :=
  parts.scheme ++ '/' :: (parts.name ++ marked '@' parts.ref)

def Parts.text (parts : Parts) : List Char :=
  "pkg:".toList ++ (parts.body ++ marked '#' parts.subpath)

/-- Where the parts are cut: no mark stands in a part that ends before it, and after the last `@`
comes the ref. -/
structure Parts.Apart (parts : Parts) : Prop where
  scheme : parts.scheme ≠ [] ∧ '/' ∉ parts.scheme ∧ '#' ∉ parts.scheme
  name : parts.name ≠ [] ∧ '#' ∉ parts.name
  ref : ∀ ref ∈ parts.ref, '@' ∉ ref ∧ '#' ∉ ref
  noRef : parts.ref = none → '@' ∉ parts.name

/-- The parts of a text that is an address. -/
def IsAddress (text : String) : Prop :=
  ∃ parts : Parts, parts.Apart ∧ text = String.ofList parts.text

def Parts.package (parts : Parts) : PackageRef :=
  ⟨String.ofList parts.scheme, String.ofList parts.name, refPart parts.ref, parts.subpath.bind part⟩

theorem splitRef_marked {name : List Char} {ref : Option (List Char)}
    (apart : ∀ text ∈ ref, '@' ∉ text) (noRef : ref = none → '@' ∉ name) :
    splitRef (name ++ marked '@' ref) = (name, ref) := by
  unfold splitRef marked
  cases ref with
  | none => simp [cutLast_eq_none.mpr (noRef rfl)]
  | some text => simp [cutLast_append name (apart text rfl)]

theorem eq_marked_of_splitRef {text name : List Char} {ref : Option (List Char)}
    (split : splitRef text = (name, ref)) :
    text = name ++ marked '@' ref ∧ (∀ part ∈ ref, '@' ∉ part) ∧ (ref = none → '@' ∉ name) := by
  unfold splitRef at split
  cases cut : cutLast '@' text with
  | none =>
    rw [cut] at split
    obtain ⟨rfl, rfl⟩ := Prod.mk.inj split
    exact ⟨by simp [marked], by simp, fun _ => cutLast_eq_none.mp cut⟩
  | some halves =>
    rw [cut] at split
    obtain ⟨rfl, rfl⟩ := Prod.mk.inj split
    obtain ⟨whole, last⟩ := cutLast_eq_some cut
    exact ⟨whole, by simpa using last, by simp⟩

theorem Parts.Apart.not_mem_body {parts : Parts} (apart : parts.Apart) : '#' ∉ parts.body := by
  obtain ⟨-, -, inScheme⟩ := apart.scheme
  have inRef : '#' ∉ marked '@' parts.ref := by
    cases found : parts.ref with
    | none => simp [marked]
    | some ref => simpa [marked] using (apart.ref ref found).2
  simp [body, inScheme, apart.name.2, inRef]

def splitSubpath (text : List Char) : List Char × Option String :=
  match cutFirst '#' text with
  | some (before, after) => (before, part after)
  | none => (text, none)

theorem splitSubpath_marked {body : List Char} (absent : '#' ∉ body)
    (subpath : Option (List Char)) :
    splitSubpath (body ++ marked '#' subpath) = (body, subpath.bind part) := by
  unfold splitSubpath marked
  cases subpath with
  | none => simp [cutFirst_eq_none.mpr absent]
  | some text => simp [cutFirst_append absent]

theorem eq_marked_of_splitSubpath {text body : List Char} {subpath : Option String}
    (split : splitSubpath text = (body, subpath)) :
    ∃ rest, text = body ++ marked '#' rest ∧ '#' ∉ body ∧ subpath = rest.bind part := by
  unfold splitSubpath at split
  cases cut : cutFirst '#' text with
  | none =>
    rw [cut] at split
    obtain ⟨rfl, rfl⟩ := Prod.mk.inj split
    exact ⟨none, by simp [marked], cutFirst_eq_none.mp cut, rfl⟩
  | some halves =>
    rw [cut] at split
    obtain ⟨rfl, rfl⟩ := Prod.mk.inj split
    obtain ⟨whole, first⟩ := cutFirst_eq_some cut
    exact ⟨some halves.2, whole, first, rfl⟩

theorem parse_of_start {address : String} {body : List Char}
    (start : afterPrefix? "pkg:".toList address.toList = some body) :
    parse address =
      if !body.contains '/' then .error (.notPackage address)
      else match cutFirst '/' (splitSubpath body).1 with
        | none => .error .noPackageName
        | some (scheme, rest) =>
          if scheme.isEmpty || (splitRef rest).1.isEmpty then .error (.notPackage address)
          else .ok ⟨String.ofList scheme, String.ofList (splitRef rest).1,
            refPart (splitRef rest).2,
            (splitSubpath body).2⟩ := by
  unfold parse
  rw [start]
  rfl

theorem parse_text {parts : Parts} (apart : parts.Apart) :
    parse (String.ofList parts.text) = .ok parts.package := by
  have start : afterPrefix? "pkg:".toList (String.ofList parts.text).toList =
      some (parts.body ++ marked '#' parts.subpath) := by
    rw [afterPrefix?_eq_some]
    exact String.toList_ofList
  have hasSlash : (parts.body ++ marked '#' parts.subpath).contains '/' = true := by
    simp [Parts.body]
  have cut : cutFirst '/' parts.body = some (parts.scheme, parts.name ++ marked '@' parts.ref) :=
    cutFirst_append apart.scheme.2.1 _
  have split := splitRef_marked (fun ref found => (apart.ref ref found).1) apart.noRef
  rw [parse_of_start start, hasSlash, splitSubpath_marked apart.not_mem_body, cut]
  simp [split, apart.scheme.1, apart.name.1, Parts.package]

theorem exists_parts_of_parse {address : String} {package : PackageRef}
    (read : parse address = .ok package) :
    ∃ parts : Parts, parts.Apart ∧ address = String.ofList parts.text ∧
      package = parts.package := by
  cases start : afterPrefix? "pkg:".toList address.toList with
  | none =>
    unfold parse at read
    rw [start] at read
    cases read
  | some text =>
    rw [parse_of_start start] at read
    rcases sub : splitSubpath text with ⟨body, subpath⟩
    rw [sub] at read
    split at read
    · cases read
    · split at read
      · cases read
      · next scheme rest cut =>
        rcases split : splitRef rest with ⟨name, ref⟩
        rw [split] at read
        split at read
        · cases read
        · next filled =>
          obtain rfl := Except.ok.inj read
          obtain ⟨filledScheme, filledName⟩ : scheme ≠ [] ∧ name ≠ [] := by simpa using filled
          obtain ⟨written, whole, inBody, rfl⟩ := eq_marked_of_splitSubpath sub
          obtain ⟨rfl, inRef, noRef⟩ := eq_marked_of_splitRef split
          obtain ⟨rfl, inScheme⟩ := cutFirst_eq_some cut
          simp only [List.mem_append, List.mem_cons, not_or] at inBody
          refine ⟨⟨scheme, name, ref, written⟩, ⟨⟨filledScheme, inScheme, inBody.1⟩,
            ⟨filledName, inBody.2.2.1⟩, fun part found => ⟨inRef part found, ?_⟩, noRef⟩, ?_, rfl⟩
          · obtain rfl := Option.mem_def.mp found
            simpa [marked] using inBody.2.2.2
          · rw [afterPrefix?_eq_some, whole] at start
            exact String.ext (start.trans String.toList_ofList.symm)

/-- A text is refused for its value only. -/
theorem category_of_parse {address : String} {fault : Fault}
    (refused : parse address = .error fault) :
    fault.category = .value := by
  cases start : afterPrefix? "pkg:".toList address.toList with
  | none =>
    unfold parse at refused
    rw [start] at refused
    cases refused
    rfl
  | some text =>
    rw [parse_of_start start] at refused
    split at refused
    · cases refused
      rfl
    · split at refused
      · cases refused
        rfl
      · split at refused
        · cases refused
          rfl
        · cases refused

/-! ## References made of texts -/

def ofTexts (scheme name : String) (ref subpath : Option String) : PackageRef :=
  ⟨scheme, name, ref.elim .null .text, subpath⟩

/-- Texts that are found again in the address of the reference that they make. -/
structure AreRecoverable (scheme name : String) (ref subpath : Option String) : Prop where
  inScheme : scheme ≠ "" ∧ '/' ∉ scheme.toList ∧ '#' ∉ scheme.toList
  inName : name ≠ "" ∧ '#' ∉ name.toList
  inRef : ∀ text ∈ ref, text ≠ "" ∧ '@' ∉ text.toList ∧ '#' ∉ text.toList
  withoutRef : ref = none → '@' ∉ name.toList
  inSubpath : subpath ≠ some ""

def filled (text : Option String) : Option (List Char) :=
  text.bind fun word => if word = "" then none else some word.toList

def partsOf (scheme name : String) (ref subpath : Option String) : Parts :=
  ⟨scheme.toList, name.toList, filled ref, filled subpath⟩

theorem filled_of_ne {text : Option String} (full : text ≠ some "") :
    filled text = text.map String.toList := by
  cases text with
  | none => rfl
  | some word =>
    have ne : word ≠ "" := fun empty => full (congrArg some empty)
    simp [filled, ne]

theorem bind_part_toList {text : Option String} (full : text ≠ some "") :
    (text.map String.toList).bind part = text := by
  cases text with
  | none => rfl
  | some word =>
    have ne : word ≠ "" := fun empty => full (congrArg some empty)
    simp [part, ne]

theorem bind_part_ne_empty (text : Option (List Char)) : text.bind part ≠ some "" := by
  cases text with
  | none => simp
  | some word => by_cases empty : word = [] <;> simp [part, empty]

theorem refPart_eq (ref : Option (List Char)) :
    refPart ref = (ref.bind part).elim .null .text := by
  match ref with
  | none => rfl
  | some [] => rfl
  | some (c :: rest) => rfl

theorem Parts.package_eq (parts : Parts) :
    parts.package = ofTexts (String.ofList parts.scheme) (String.ofList parts.name)
      (parts.ref.bind part) (parts.subpath.bind part) := by
  rw [package, ofTexts, refPart_eq]

def subpathText : Option String → String
  | none => ""
  | some subpath => if subpath = "" then "" else "#" ++ subpath

theorem address_eq (package : PackageRef) : package.address =
    (if package.ref.present then package.ref.toText.map ("@" ++ ·) else pure "") >>= fun ref =>
      pure ("pkg:" ++ package.scheme ++ "/" ++ package.name ++ ref ++
        subpathText package.subpath) := by
  unfold address
  by_cases present : package.ref.present = true
  · simp only [if_pos present]
    rfl
  · simp only [if_neg present]
    rfl

theorem toList_subpathText (subpath : Option String) :
    (subpathText subpath).toList = marked '#' (filled subpath) := by
  cases subpath with
  | none => rfl
  | some text => by_cases empty : text = "" <;> simp [subpathText, marked, filled, empty]

theorem refText_ofTexts (ref : Option String) :
    (if (ref.elim Value.null .text).present then
      (ref.elim Value.null .text).toText.map ("@" ++ ·) else pure "") =
      (.ok (String.ofList (marked '@' (filled ref))) : Except Fault String) := by
  cases ref with
  | none => rfl
  | some text =>
    by_cases empty : text = ""
    · subst empty
      rfl
    · have present : (Value.text text).present = true := by simpa [Value.present] using empty
      rw [Option.elim_some, if_pos present]
      refine congrArg Except.ok (String.ext ?_)
      simp [marked, filled, empty]

theorem address_ofTexts (scheme name : String) (ref subpath : Option String) :
    (ofTexts scheme name ref subpath).address =
      .ok (String.ofList (partsOf scheme name ref subpath).text) := by
  rw [address_eq, ofTexts, refText_ofTexts, ok_bind]
  refine congrArg Except.ok (String.ext ?_)
  simp [toList_subpathText, partsOf, Parts.text, Parts.body]

theorem apart_partsOf {scheme name : String} {ref subpath : Option String}
    (recoverable : AreRecoverable scheme name ref subpath) :
    (partsOf scheme name ref subpath).Apart := by
  have full : ref ≠ some "" := fun empty => (recoverable.inRef "" empty).1 rfl
  obtain ⟨named, inName⟩ := recoverable.inName
  obtain ⟨schemed, inScheme⟩ := recoverable.inScheme
  refine ⟨⟨by simpa [partsOf] using schemed, inScheme⟩,
    ⟨by simpa [partsOf] using named, inName⟩, ?_, ?_⟩
  · intro part found
    simp only [partsOf, filled_of_ne full] at found
    obtain ⟨text, given, rfl⟩ := Option.map_eq_some_iff.mp (Option.mem_def.mp found)
    exact (recoverable.inRef text given).2
  · intro none
    simp only [partsOf, filled_of_ne full, Option.map_eq_none_iff] at none
    exact recoverable.withoutRef none

theorem marked_ne (subpath : Option (List Char)) (rest : List Char) :
    marked '#' subpath ≠ '@' :: rest := by
  cases subpath <;> simp [marked]

theorem recoverable_of_parse {scheme name : String} {ref subpath : Option String}
    (read : parse (String.ofList (partsOf scheme name ref subpath).text) =
      .ok (ofTexts scheme name ref subpath)) : AreRecoverable scheme name ref subpath := by
  obtain ⟨parts, apart, sameText, samePackage⟩ := exists_parts_of_parse read
  obtain ⟨schemeParts, nameParts, refParts, subpathParts⟩ := parts
  rw [Parts.package_eq] at samePackage
  simp only [ofTexts, PackageRef.mk.injEq] at samePackage
  obtain ⟨rfl, rfl, sameRef, rfl⟩ := samePackage
  refine ⟨by simpa using apart.scheme, by simpa using apart.name, ?_, ?_, ?_⟩
  · rintro text rfl
    cases refParts with
    | none => cases sameRef
    | some ref =>
      cases ref with
      | nil => cases sameRef
      | cons c rest =>
        obtain rfl := Value.text.inj sameRef
        exact ⟨by simp, by simpa using apart.ref _ rfl⟩
  · rintro rfl
    have body : marked '#' (filled (subpathParts.bind part)) =
        marked '@' refParts ++ marked '#' subpathParts := by
      have chars := congrArg String.toList sameText
      simpa [partsOf, Parts.text, Parts.body, filled, marked] using chars
    cases refParts with
    | none => simpa using apart.noRef rfl
    | some ref =>
      cases ref with
      | nil => exact absurd body (marked_ne _ _)
      | cons c rest => cases sameRef
  · exact bind_part_ne_empty subpathParts

theorem read_back_iff (scheme name : String) (ref subpath : Option String) :
    (ofTexts scheme name ref subpath).address >>= parse = .ok (ofTexts scheme name ref subpath) ↔
      AreRecoverable scheme name ref subpath := by
  rw [address_ofTexts, ok_bind]
  refine ⟨recoverable_of_parse, fun recoverable => ?_⟩
  have full : ref ≠ some "" := fun empty => (recoverable.inRef "" empty).1 rfl
  rw [parse_text (apart_partsOf recoverable), Parts.package_eq]
  simp only [partsOf, filled_of_ne full, filled_of_ne recoverable.inSubpath, bind_part_toList full,
    bind_part_toList recoverable.inSubpath, String.ofList_toList]

/-! ## Texts that are read -/

def withoutLast (mark : Char) (text : List Char) : List Char :=
  if text.getLast? = some mark then text.dropLast else text

/-- A text without a ref and a subpath that are empty. -/
def tidied (text : List Char) : List Char :=
  match cutFirst '#' text with
  | some (before, []) => withoutLast '@' before
  | some (before, after) => withoutLast '@' before ++ '#' :: after
  | none => withoutLast '@' text

theorem withoutLast_append {mark : Char} (before : List Char) {text : List Char} (full : text ≠ [])
    (absent : mark ∉ text) : withoutLast mark (before ++ text) = before ++ text := by
  refine if_neg fun last => absent ?_
  rw [List.getLast?_append_of_ne_nil _ full] at last
  exact List.mem_of_getLast? last

theorem tidied_marked {body : List Char} (absent : '#' ∉ body) (subpath : Option (List Char)) :
    tidied (body ++ marked '#' subpath) =
      withoutLast '@' body ++ marked '#' (filled (subpath.bind part)) := by
  unfold tidied
  cases subpath with
  | none => simp [marked, filled, cutFirst_eq_none.mpr absent]
  | some text =>
    rw [marked, Option.elim_some, cutFirst_append absent]
    cases text with
    | nil => simp [marked, filled, part]
    | cons c rest => simp [marked, filled, part]

def Parts.tidied (parts : Parts) : Parts :=
  { parts with ref := filled (parts.ref.bind part), subpath := filled (parts.subpath.bind part) }

/-- Before its subpath, an address ends with `@` only if its ref is empty. -/
theorem Parts.Apart.withoutLast_body {parts : Parts} (apart : parts.Apart) (start : List Char) :
    withoutLast '@' (start ++ parts.body) = start ++ parts.tidied.body := by
  have ends (rest : List Char) : start ++ (parts.scheme ++ '/' :: rest) =
      (start ++ parts.scheme ++ ['/']) ++ rest := by simp
  unfold body tidied
  cases found : parts.ref with
  | none =>
    simp only [marked, filled, Option.elim_none, Option.bind_none, List.append_nil, ends]
    exact withoutLast_append _ apart.name.1 (apart.noRef found)
  | some ref =>
    cases ref with
    | nil =>
      have last : (start ++ parts.scheme ++ ['/'] ++ (parts.name ++ ['@'])).getLast? =
          some '@' := by
        rw [← List.append_assoc, List.getLast?_concat]
      simp only [marked, filled, part, Option.elim_some, Option.bind_some,
        List.isEmpty_nil, if_true, Option.bind_none, Option.elim_none, List.append_nil, ends]
      rw [withoutLast, if_pos last, ← List.append_assoc, List.dropLast_concat]
    | cons c rest =>
      have absent := (apart.ref _ found).1
      have shown : filled ((some (c :: rest)).bind part) = some (c :: rest) := by
        simp [filled, part]
      have whole : start ++ (parts.scheme ++ '/' :: (parts.name ++ '@' :: c :: rest)) =
          (start ++ parts.scheme ++ '/' :: parts.name ++ ['@']) ++ c :: rest := by simp
      rw [shown]
      simp only [marked, Option.elim_some, whole]
      exact withoutLast_append _ (List.cons_ne_nil c rest) absent

theorem Parts.Apart.tidied_text {parts : Parts} (apart : parts.Apart) :
    PackageRef.tidied parts.text = parts.tidied.text := by
  have inBody : '#' ∉ "pkg:".toList ++ parts.body := by simpa using apart.not_mem_body
  rw [text, ← List.append_assoc, tidied_marked inBody, apart.withoutLast_body, List.append_assoc]
  rfl

/-- What a text comes to when it is read: if it is an address, a reference whose address it is but
for what is empty in it, and else a refusal. -/
def IsReading (text : String) : Except Fault PackageRef → Prop
  | .ok package => IsAddress text ∧ package.address = .ok (String.ofList (tidied text.toList))
  | .error fault => ¬ IsAddress text ∧ fault.category = .value

theorem isReading_parse (text : String) : IsReading text (parse text) := by
  cases read : parse text with
  | error fault =>
    refine ⟨?_, category_of_parse read⟩
    rintro ⟨parts, apart, rfl⟩
    rw [parse_text apart] at read
    cases read
  | ok package =>
    obtain ⟨parts, apart, rfl, rfl⟩ := exists_parts_of_parse read
    refine ⟨⟨parts, apart, rfl⟩, ?_⟩
    have same : partsOf (String.ofList parts.scheme) (String.ofList parts.name)
        (parts.ref.bind part) (parts.subpath.bind part) = parts.tidied := by
      simp [partsOf, Parts.tidied]
    show parts.package.address = _
    rw [Parts.package_eq, address_ofTexts, same, String.toList_ofList, apart.tidied_text]

/-- A reference made of texts is read back from its address exactly when its texts can be told apart
there; whatever text is read as a reference is its address, but for an empty ref and an empty
subpath; and what is no address is refused. -/
theorem addresses_are_read_back :
    (∀ scheme name ref subpath,
      (ofTexts scheme name ref subpath).address >>= parse = .ok (ofTexts scheme name ref subpath) ↔
        AreRecoverable scheme name ref subpath) ∧
      ∀ text, IsReading text (parse text) :=
  ⟨read_back_iff, isReading_parse⟩

end SupplyLint.PackageRef
