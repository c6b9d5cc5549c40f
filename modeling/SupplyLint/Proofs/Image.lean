import SupplyLint.Proofs.Address

/-! # Images are taken apart in one way

The text of an image is a name, a tag behind a colon and a digest behind the first
`@`, the last two optional. The last colon begins the tag only if no slash follows
it, and else belongs to a port. `image_texts_decompose`: a text that is put together
in this way is taken apart again, and whatever text makes a reference begins with
its name and ends with its ref. -/
set_option autoImplicit false

namespace SupplyLint.PackageRef

open SupplyLint.Text

/-! ## The parts of an image -/

structure ImageParts where
  name : List Char
  tag : Option (List Char)
  digest : Option (List Char)

namespace ImageParts

def text (parts : ImageParts) : List Char :=
  parts.name ++ (marked ':' parts.tag ++ marked '@' parts.digest)

/-- Every colon of a name is followed by a slash, so that none begins a tag. -/
def HasNoTag (name : List Char) : Prop :=
  ∀ before after, name = before ++ ':' :: after → '/' ∈ after

structure Apart (parts : ImageParts) : Prop where
  name : '@' ∉ parts.name
  tag : ∀ tag ∈ parts.tag, '/' ∉ tag ∧ ':' ∉ tag ∧ '@' ∉ tag
  noTag : parts.tag = none → HasNoTag parts.name

/-- The reference to an image: the digest counts more than the tag. -/
def package (parts : ImageParts) : PackageRef :=
  ⟨imageScheme, String.ofList parts.name, refPart (parts.digest.or parts.tag), none⟩

theorem package_eq (parts : ImageParts) :
    parts.package =
      ofTexts imageScheme (String.ofList parts.name)
        ((parts.digest.or parts.tag).bind part) none := by
  rw [package, ofTexts, refPart_eq]

theorem name_prefix (parts : ImageParts) : parts.name <+: parts.text :=
  ⟨_, rfl⟩

theorem ref_suffix (parts : ImageParts) :
    ∀ ref ∈ parts.digest.or parts.tag, ref <:+ parts.text := by
  intro ref given
  rw [text]
  cases found : parts.digest with
  | some digest =>
    rw [found, Option.some_or] at given
    obtain rfl := Option.some.inj (Option.mem_def.mp given)
    exact ⟨parts.name ++ (marked ':' parts.tag ++ ['@']), by simp [marked]⟩
  | none =>
    rw [found, Option.none_or, Option.mem_def] at given
    exact ⟨parts.name ++ [':'], by simp [marked, given]⟩

end ImageParts

open ImageParts

theorem splitTag_marked {name : List Char} {tag : Option (List Char)}
    (apart : ∀ text ∈ tag, '/' ∉ text ∧ ':' ∉ text) (noTag : tag = none → HasNoTag name) :
    splitTag (name ++ marked ':' tag) = (name, tag) := by
  unfold splitTag marked
  cases tag with
  | some text =>
    obtain ⟨noSlash, noColon⟩ := apart text rfl
    simp [cutLast_append name noColon, noSlash]
  | none =>
    rw [Option.elim_none, List.append_nil]
    cases last : cutLast ':' name with
    | none => rfl
    | some halves =>
      have slash := noTag rfl _ _ (cutLast_eq_some last).1
      simp [slash]

theorem eq_marked_of_splitTag {image name : List Char} {tag : Option (List Char)}
    (split : splitTag image = (name, tag)) :
    image = name ++ marked ':' tag ∧ (∀ text ∈ tag, '/' ∉ text ∧ ':' ∉ text) ∧
      (tag = none → HasNoTag name) := by
  unfold splitTag at split
  cases last : cutLast ':' image with
  | none =>
    rw [last] at split
    obtain ⟨rfl, rfl⟩ := Prod.mk.inj split
    refine ⟨by simp [marked], by simp, fun _ before after whole => ?_⟩
    exact absurd (by simp [whole]) (cutLast_eq_none.mp last)
  | some halves =>
    obtain ⟨whole, noColon⟩ := cutLast_eq_some last
    rw [last] at split
    dsimp only at split
    split at split
    · next slash =>
      obtain ⟨rfl, rfl⟩ := Prod.mk.inj split
      refine ⟨by simp [marked], by simp, fun _ before after other => ?_⟩
      exact (suffix_of_last whole noColon other).subset (by simpa using slash)
    · next noSlash =>
      obtain ⟨rfl, rfl⟩ := Prod.mk.inj split
      refine ⟨whole, ?_, by simp⟩
      simpa [noColon] using noSlash

def splitDigest (image : List Char) : List Char × Option (List Char) :=
  match cutFirst '@' image with
  | some (before, after) => (before, some after)
  | none => (image, none)

theorem splitDigest_marked {before : List Char} (absent : '@' ∉ before)
    (digest : Option (List Char)) :
    splitDigest (before ++ marked '@' digest) = (before, digest) := by
  unfold splitDigest marked
  cases digest with
  | none => simp [cutFirst_eq_none.mpr absent]
  | some text => simp [cutFirst_append absent]

theorem eq_marked_of_splitDigest {image before : List Char} {digest : Option (List Char)}
    (split : splitDigest image = (before, digest)) :
    image = before ++ marked '@' digest ∧ '@' ∉ before := by
  unfold splitDigest at split
  cases cut : cutFirst '@' image with
  | none =>
    rw [cut] at split
    obtain ⟨rfl, rfl⟩ := Prod.mk.inj split
    exact ⟨by simp [marked], cutFirst_eq_none.mp cut⟩
  | some halves =>
    rw [cut] at split
    obtain ⟨rfl, rfl⟩ := Prod.mk.inj split
    exact cutFirst_eq_some cut

/-! ## Taking apart and putting together -/

def ImageParts.cut (image : List Char) : ImageParts :=
  ⟨(splitTag (splitDigest image).1).1, (splitTag (splitDigest image).1).2, (splitDigest image).2⟩

theorem ImageParts.Apart.not_mem {parts : ImageParts} (apart : parts.Apart) :
    '@' ∉ parts.name ++ marked ':' parts.tag := by
  rw [List.mem_append, not_or]
  refine ⟨apart.name, ?_⟩
  cases found : parts.tag with
  | none => simp [marked]
  | some tag => simpa [marked] using (apart.tag tag found).2.2

theorem cut_text {parts : ImageParts} (apart : parts.Apart) : cut parts.text = parts := by
  have digest := splitDigest_marked apart.not_mem parts.digest
  have tag := splitTag_marked
      (fun text found => ⟨(apart.tag text found).1, (apart.tag text found).2.1⟩)
    apart.noTag
  rw [ImageParts.text, ← List.append_assoc, cut, digest, tag]

theorem exists_parts (image : List Char) :
    ∃ parts : ImageParts, parts.Apart ∧ parts.text = image ∧ cut image = parts := by
  rcases digestCut : splitDigest image with ⟨before, digest⟩
  rcases tagCut : splitTag before with ⟨name, tag⟩
  obtain ⟨rfl, absent⟩ := eq_marked_of_splitDigest digestCut
  obtain ⟨rfl, inTag, noTag⟩ := eq_marked_of_splitTag tagCut
  rw [List.mem_append, not_or] at absent
  refine ⟨⟨name, tag, digest⟩, ⟨absent.1, fun text found => ?_, noTag⟩, ?_, ?_⟩
  · obtain rfl := Option.mem_def.mp found
    refine ⟨(inTag text rfl).1, (inTag text rfl).2, by simpa [marked] using absent.2⟩
  · rw [ImageParts.text, List.append_assoc]
  · rw [cut, digestCut, tagCut]

theorem ofImage_eq (text : String) :
    ofImage text =
      if (cut (trimBy isBlank text.toList)).name.isEmpty then none
      else some (cut (trimBy isBlank text.toList)).package := by
  unfold ofImage ImageParts.cut splitDigest
  dsimp only
  cases cutFirst '@' (trimBy isBlank text.toList) with
  | none => rfl
  | some halves => rfl

theorem ofImage_eq_some_iff {text : String} {package : PackageRef} :
    ofImage text = some package ↔
      ∃ parts : ImageParts, parts.Apart ∧ parts.text = trimBy isBlank text.toList ∧
        parts.name ≠ [] ∧
        package = parts.package := by
  rw [ofImage_eq]
  constructor
  · intro made
    obtain ⟨parts, apart, whole, same⟩ := exists_parts (trimBy isBlank text.toList)
    rw [same] at made
    split at made
    · cases made
    · next named =>
      exact ⟨parts, apart, whole, by simpa using named, (Option.some.inj made).symm⟩
  · rintro ⟨parts, apart, whole, named, rfl⟩
    rw [← whole, cut_text apart, if_neg (by simpa using named)]

/-! ## Texts of images -/

def imageText (name : String) (tag digest : Option String) : String :=
  name ++ tag.elim "" (":" ++ ·) ++ digest.elim "" ("@" ++ ·)

/-- A name that is not taken apart: a colon in it belongs to a port, with a slash somewhere behind
it. -/
structure IsImageName (name : String) : Prop where
  filled : name ≠ ""
  noDigest : '@' ∉ name.toList
  noTag : ':' ∉ (afterLast '/' name).toList

structure IsTag (tag : String) : Prop where
  filled : tag ≠ ""
  apart : '/' ∉ tag.toList ∧ ':' ∉ tag.toList ∧ '@' ∉ tag.toList

structure IsTrimmed (text : String) : Prop where
  first : ∀ c ∈ text.toList.head?, isBlank c = false
  last : ∀ c ∈ text.toList.getLast?, isBlank c = false

theorem IsImageName.hasNoTag {name : String} (image : IsImageName name) : HasNoTag name.toList := by
  intro before after whole
  by_contra noSlash
  refine image.noTag ?_
  unfold afterLast
  cases cut : cutLast '/' name.toList with
  | none => simp [whole]
  | some halves =>
    rw [String.toList_ofList]
    exact (mem_or_mem_of_cuts (by decide) whole (cutLast_eq_some cut).1).resolve_right noSlash

theorem toList_imageText (name : String) (tag digest : Option String) :
    (imageText name tag digest).toList =
      (ImageParts.mk name.toList (tag.map String.toList) (digest.map String.toList)).text := by
  cases tag <;> cases digest <;> simp [imageText, ImageParts.text, marked]

/-- A name, a tag and a digest that make up the text of an image. -/
structure MakeImage (name : String) (tag digest : Option String) : Prop where
  name : IsImageName name
  tag : ∀ text ∈ tag, IsTag text
  digest : digest ≠ some ""

section
variable {name other : String} {tag digest otherTag otherDigest : Option String}

theorem MakeImage.apart (make : MakeImage name tag digest) :
    (ImageParts.mk name.toList (tag.map String.toList) (digest.map String.toList)).Apart := by
  refine ⟨make.name.noDigest, fun text found => ?_, fun _ => make.name.hasNoTag⟩
  obtain ⟨word, given, rfl⟩ := Option.map_eq_some_iff.mp (Option.mem_def.mp found)
  exact (make.tag word given).apart

theorem MakeImage.unique (make : MakeImage name tag digest)
    (others : MakeImage other otherTag otherDigest)
    (same : imageText name tag digest = imageText other otherTag otherDigest) :
    name = other ∧ tag = otherTag ∧ digest = otherDigest := by
  have chars := congrArg String.toList same
  rw [toList_imageText, toList_imageText] at chars
  have parts := congrArg cut chars
  rw [cut_text make.apart, cut_text others.apart, ImageParts.mk.injEq] at parts
  have injective : Function.Injective String.toList := fun _ _ => String.toList_injective
  exact ⟨injective parts.1, Option.map_injective injective parts.2.1,
    Option.map_injective injective parts.2.2⟩

theorem MakeImage.ofImage (make : MakeImage name tag digest)
    (trimmed : IsTrimmed (imageText name tag digest)) :
    PackageRef.ofImage (imageText name tag digest) =
      some (ofTexts imageScheme name (digest.or tag) none) := by
  have filled : digest.or tag ≠ some "" := by
    cases digest with
    | some text => exact make.digest
    | none => exact fun empty => (make.tag "" empty).filled rfl
  refine ofImage_eq_some_iff.mpr ⟨_, make.apart, ?_, ?_, ?_⟩
  · rw [← toList_imageText, trimBy_of_ends trimmed.first trimmed.last]
  · simpa using make.name.filled
  · rw [ImageParts.package_eq, ← Option.map_or, bind_part_toList filled, String.ofList_toList]

end

/-- What a reference has of the text of an image: its name is the beginning, and its ref, if it has
one, the end. -/
structure IsTakenFrom (image : List Char) (package : PackageRef) : Prop where
  scheme : package.scheme = imageScheme
  name : package.name ≠ "" ∧ '@' ∉ package.name.toList ∧ package.name.toList <+: image
  ref : package.ref = .null ∨ ∃ ref, package.ref = .text ref ∧ ref.toList <:+ image
  subpath : package.subpath = none

theorem refPart_suffix {ref : Option (List Char)} {image : List Char}
    (ends : ∀ text ∈ ref, text <:+ image) :
    refPart ref = .null ∨ ∃ text, refPart ref = .text text ∧ text.toList <:+ image := by
  match ref with
  | none => exact .inl rfl
  | some [] => exact .inl rfl
  | some (c :: rest) => exact .inr ⟨String.ofList (c :: rest), rfl, by simpa using ends _ rfl⟩

theorem isTakenFrom_of_ofImage {text : String} {package : PackageRef}
    (made : ofImage text = some package) : IsTakenFrom (trimBy isBlank text.toList) package := by
  obtain ⟨parts, apart, whole, named, rfl⟩ := ofImage_eq_some_iff.mp made
  rw [← whole]
  refine ⟨rfl, ⟨?_, ?_, ?_⟩, refPart_suffix parts.ref_suffix, rfl⟩
  · simpa [ImageParts.package] using named
  · simpa [ImageParts.package] using apart.name
  · simpa [ImageParts.package] using parts.name_prefix

/-- A name, a tag and a digest are told apart in the text that they make, and it makes the reference
to the name with the digest, or else with the tag; and whatever text makes a reference begins with
its name and ends with its ref. -/
theorem image_texts_decompose :
    (∀ name tag digest, MakeImage name tag digest →
      (∀ other otherTag otherDigest, MakeImage other otherTag otherDigest →
        imageText name tag digest = imageText other otherTag otherDigest →
        name = other ∧ tag = otherTag ∧ digest = otherDigest) ∧
      (IsTrimmed (imageText name tag digest) →
        ofImage (imageText name tag digest) = some
          (ofTexts imageScheme name (digest.or tag) none))) ∧
    ∀ text package, ofImage text = some package →
      IsTakenFrom (trimBy isBlank text.toList) package :=
  ⟨fun _ _ _ make => ⟨fun _ _ _ => make.unique, make.ofImage⟩, fun _ _ => isTakenFrom_of_ofImage⟩

theorem port_is_no_tag :
    ofImage "localhost:5000/team/app" = some
      (ofTexts "docker" "localhost:5000/team/app" none none) ∧
    ofImage "localhost:5000/team/app:1.2@sha256:0" =
      some (ofTexts "docker" "localhost:5000/team/app" (some "sha256:0") none) ∧
    IsTakenFrom (trimBy isBlank "localhost:5000/team/app:1.2@sha256:0".toList)
      (ofTexts "docker" "localhost:5000/team/app" (some "sha256:0") none) := by
  have image : IsImageName "localhost:5000/team/app" := ⟨by decide, by decide, by decide⟩
  have tag : ∀ text ∈ some "1.2", IsTag text := by
    rintro _ ⟨⟩
    exact ⟨by decide, by decide⟩
  have plainTrimmed : IsTrimmed (imageText "localhost:5000/team/app" none none) := by
    constructor
    all_goals
      rintro c ⟨⟩
      decide
  have fullTrimmed : IsTrimmed
      (imageText "localhost:5000/team/app" (some "1.2") (some "sha256:0")) := by
    constructor
    all_goals
      rintro c ⟨⟩
      decide
  obtain ⟨shapes, taken⟩ := image_texts_decompose
  have untagged := (shapes _ none none ⟨image, by simp, by simp⟩).2 plainTrimmed
  have tagged := (shapes _ _ _ ⟨image, tag, by decide⟩).2 fullTrimmed
  exact ⟨untagged, tagged, taken _ _ tagged⟩

end SupplyLint.PackageRef
