import SupplyLint.Proofs.Text.Split
import SupplyLint.Scan.Clone

/-! # Addresses of repositories on hosts

A repository on a host is given by its path, from which the address to clone it from
is made; the name of a repository is read off its address.
`slugs_expand_and_name_back`: which paths have an address, what the address is, and
that the name is the last segment of the path. -/
set_option autoImplicit false

namespace SupplyLint.Clone

open SupplyLint.Text

/-! ## Paths and bases -/

/-- The segments of a path, which may have slashes around it. -/
structure HasSegments (repository : String) (segments : List String) : Prop where
  filled : segments ≠ []
  slashless : ∀ segment ∈ segments, '/' ∉ segment.toList
  ends : EndsKept isSlash (join "/" segments).toList
  around : ∃ front back, repository.toList = front ++ ((join "/" segments).toList ++ back) ∧
    (∀ c ∈ front, isSlash c = true) ∧ ∀ c ∈ back, isSlash c = true

/-- Segments that lead to a repository: at least two, and none of them is empty. -/
def AreSlug (segments : List String) : Prop :=
  2 ≤ segments.length ∧ ∀ segment ∈ segments, segment ≠ ""

/-- The base that is asked for, or that of the host if none is, without the slashes at its end. -/
def IsBase (host : Host) (base : Option String) (front : String) : Prop :=
  ∃ chosen back, (base = some chosen ∧ chosen ≠ "" ∨ (base = none ∨ base = some "") ∧
    chosen = host.address) ∧
    chosen = front ++ back ∧ (∀ c ∈ back.toList, isSlash c = true) ∧
    ∀ c ∈ front.toList.getLast?, isSlash c = false

section Paths
variable {repository : String} {segments : List String}

theorem exists_segments (repository : String) : ∃ segments, HasSegments repository segments := by
  have trimmed := trimBy_eq_iff.mp (rfl : trimBy isSlash repository.toList = _)
  generalize trimBy isSlash repository.toList = slug at trimmed
  have whole : (join "/" (splitAll '/' (String.ofList slug))).toList = slug := by
    have strings : (splitAll '/' (String.ofList slug)).map String.toList = pieces '/' slug := by
      simp [splitAll, List.map_map, Function.comp_def]
    rw [join, String.toList_intercalate, strings]
    exact intercalate_pieces '/' slug
  refine ⟨splitAll '/' (String.ofList slug), ?_, fun segment member => ?_, ?_, ?_⟩
  · simpa [splitAll] using pieces_ne_nil '/' slug
  · obtain ⟨piece, inside, rfl⟩ := List.mem_map.mp member
    rw [String.toList_ofList] at inside ⊢
    exact not_mem_of_mem_pieces inside
  · rw [whole]
    exact trimmed.1
  · rw [whole]
    exact trimmed.2

theorem HasSegments.trimmed (path : HasSegments repository segments) :
    trimBy isSlash repository.toList = (join "/" segments).toList :=
  trimBy_eq_iff.mpr ⟨path.ends, path.around⟩

theorem HasSegments.isSlug_iff (path : HasSegments repository segments) :
    isSlug (trimBy isSlash repository.toList) = true ↔ AreSlug segments := by
  have parts : pieces '/' (join "/" segments).toList = segments.map String.toList :=
    pieces_join path.filled path.slashless
  rw [path.trimmed, isSlug, parts, AreSlug, Bool.and_eq_true]
  simp

theorem exists_base (host : Host) (base : Option String) : ∃ front, IsBase host base front := by
  obtain ⟨chosen, asked⟩ : ∃ chosen, base = some chosen ∧ chosen ≠ "" ∨
      (base = none ∨ base = some "") ∧ chosen = host.address := by
    cases base with
    | none => exact ⟨_, .inr ⟨.inl rfl, rfl⟩⟩
    | some given =>
      by_cases empty : given = ""
      · exact ⟨_, .inr ⟨.inr (congrArg some empty), rfl⟩⟩
      · exact ⟨given, .inl ⟨rfl, empty⟩⟩
  obtain ⟨last, back, whole, inBack⟩ := trimEndBy_eq_iff.mp
      (rfl : trimEndBy isSlash chosen.toList = _)
  exact ⟨String.ofList (trimEndBy isSlash chosen.toList), chosen, String.ofList back, asked,
    String.ext (by simpa using whole), by simpa using inBack, by simpa using last⟩

def slugUrl (front : String) (segments : List String) : String :=
  front ++ "/" ++ join "/" segments ++ ".git"

theorem slugAddress_eq {host : Host} {base : Option String} {front : String}
    (isBase : IsBase host base front)
    (segments : List String) :
    slugAddress host base (join "/" segments).toList = slugUrl front segments := by
  obtain ⟨chosen, back, asked, whole, inBack, last⟩ := isBase
  have same : (if (base.getD "").isEmpty then host.address else base.getD "") = chosen := by
    rcases asked with ⟨rfl, filled⟩ | ⟨rfl | rfl, rfl⟩
    · rw [Option.getD_some, if_neg (by simpa using filled)]
    · rfl
    · rfl
  have trimmed : trimEndBy isSlash chosen.toList = front.toList :=
    trimEndBy_eq_iff.mpr ⟨last, back.toList, by simp [whole], inBack⟩
  rw [slugAddress, same, trimmed]
  exact String.ext (by simp [slugUrl])

/-! ## Names -/

theorem exists_join_concat (before : List String) (last : String) :
    ∃ head, "/" ++ join "/" (before ++ [last]) = head ++ "/" ++ last := by
  induction before with
  | nil => exact ⟨"", by simp [join]⟩
  | cons segment rest ih =>
    obtain ⟨head, later⟩ := ih
    refine ⟨"/" ++ segment ++ head, ?_⟩
    have filled : rest ++ [last] ≠ [] := by simp
    obtain ⟨next, more, cut⟩ := List.exists_cons_of_ne_nil filled
    have behind := congrArg ("/" ++ segment ++ ·) later
    rw [List.cons_append, cut, join, String.intercalate_cons_cons, ← join, ← cut]
    simpa only [String.append_assoc] using behind

/-- Whatever stands in front, the last segment is the name; only the ending of the address is taken
off. -/
theorem nameOf_slugUrl (front : String) (before : List String) {last : String}
    (slashless : '/' ∉ last.toList) (noColon : ':' ∉ last.toList) :
    nameOf (slugUrl front (before ++ [last])) = last := by
  obtain ⟨head, joined⟩ := exists_join_concat before last
  have whole : (slugUrl front (before ++ [last])).toList =
      (front ++ head).toList ++ '/' :: (last ++ ".git").toList := by
    have behind := congrArg (front ++ · ++ ".git") joined
    simp only [← String.append_assoc] at behind
    rw [slugUrl, behind]
    simp
  have absent {mark : Char} (inLast : mark ∉ last.toList) (inEnding : mark ∉ ".git".toList) :
      mark ∉ (last ++ ".git").toList := by
    rw [String.toList_append, List.mem_append, not_or]
    exact ⟨inLast, inEnding⟩
  have ended : trimEndBy isSlash (slugUrl front (before ++ [last])).toList =
      (slugUrl front (before ++ [last])).toList := by
    refine trimEndBy_eq_iff.mpr ⟨fun c isLast => ?_, [], by simp, nofun⟩
    obtain rfl : 't' = c := by
      simpa [whole, List.getLast?_append, List.getLast?_cons] using isLast
    rfl
  have afterSlash : afterLast '/' (slugUrl front (before ++ [last])) = last ++ ".git" := by
    rw [afterLast, whole, cutLast_append _ (absent slashless (by decide))]
    exact String.ofList_toList
  have afterColon : afterLast ':' (last ++ ".git") = last ++ ".git" := by
    rw [afterLast, cutLast_eq_none.mpr (absent noColon (by decide))]
  have ending : afterPrefix? ".git".toList.reverse (last ++ ".git").toList.reverse =
      some last.toList.reverse := afterPrefix?_eq_some.mpr (by simp)
  rw [nameOf, ended, String.ofList_toList, afterSlash, afterColon, withoutEnding, ending]
  simp

end Paths

/-- A repository that is given neither by an address nor by a user and a host is given by a path. It
has an address if the path has at least two segments and no empty one, and is refused otherwise. The
address has the path behind the base, and its name is the last segment, whatever this ends in. -/
theorem slugs_expand_and_name_back {repository : String}
    (noScheme : ¬ "://".toList <:+: repository.toList)
    (noUser : ¬ "git@".toList <+: repository.toList) (host : Host) (base : Option String) :
    (∃ segments, HasSegments repository segments) ∧ (∃ front, IsBase host base front) ∧
      ∀ segments front, HasSegments repository segments → IsBase host base front →
        (¬ AreSlug segments → address repository host.text base = .error (.notSlug repository)) ∧
        (AreSlug segments →
          address repository host.text base = .ok (front ++ "/" ++ join "/" segments ++ ".git") ∧
            ∀ last ∈ segments.getLast?, ':' ∉ last.toList →
              nameOf (front ++ "/" ++ join "/" segments ++ ".git") = last) := by
  have noAddress : isAddress repository = false := by
    rw [isAddress, Bool.or_eq_false_iff, Bool.eq_false_iff, Bool.eq_false_iff]
    exact ⟨fun found => noScheme (isPart_iff.mp found), fun found =>
      noUser (hasPrefix_iff_startsWith.mp found)⟩
  have known : Host.ofText? host.text = some host := by cases host <;> rfl
  have expands : address repository host.text base =
      if isSlug (trimBy isSlash repository.toList) = true then
        .ok (slugAddress host base (trimBy isSlash repository.toList))
      else .error (.notSlug repository) := by
    rw [address, noAddress, known]
    rfl
  refine ⟨exists_segments repository, exists_base host base,
    fun segments front path isBase => ⟨?_, ?_⟩⟩
  · intro refused
    rw [expands, if_neg (fun slug => refused (path.isSlug_iff.mp slug))]
  · intro slug
    refine ⟨?_, fun last isLast noColon => ?_⟩
    · rw [expands, if_pos (path.isSlug_iff.mpr slug), path.trimmed, slugAddress_eq isBase]
      rfl
    · obtain ⟨before, rfl⟩ := List.getLast?_eq_some_iff.mp isLast
      exact nameOf_slugUrl front before (path.slashless last (by simp)) noColon

/-- A path with slashes around it, whose last segment looks like an address itself. -/
theorem nested_slug_names_back :
    address "/org/sub/my@tool.git/" "gitlab" (some "https://host:8443//") =
        .ok "https://host:8443/org/sub/my@tool.git.git" ∧
      nameOf "https://host:8443/org/sub/my@tool.git.git" = "my@tool.git" := by
  have slash : ∀ c ∈ ['/'], isSlash c = true := List.all_eq_true.mp rfl
  have ends (text : String) {first last : Char} (begins : text.toList.head? = some first)
      (stops : text.toList.getLast? = some last) (noFirst : isSlash first = false)
      (noLast : isSlash last = false) :
      EndsKept isSlash text.toList := by
    refine ⟨fun c isFirst => ?_, fun c isLast => ?_⟩
    · obtain rfl := Option.some.inj (begins.symm.trans isFirst)
      exact noFirst
    · obtain rfl := Option.some.inj (stops.symm.trans isLast)
      exact noLast
  have path : HasSegments "/org/sub/my@tool.git/" ["org", "sub", "my@tool.git"] :=
    ⟨by decide, by decide, ends _ (show _ = some 'o' by decide) (show _ = some 't' by decide)
      rfl rfl, ['/'], ['/'], by decide, slash, slash⟩
  have isBase : IsBase .gitlab (some "https://host:8443//") "https://host:8443" :=
    ⟨"https://host:8443//", "//", .inl ⟨rfl, by decide⟩, rfl, List.all_eq_true.mp rfl,
      (ends _ (show _ = some 'h' by decide) (show _ = some '3' by decide) rfl rfl).2⟩
  have both := ((slugs_expand_and_name_back (by decide) (by decide) .gitlab _).2.2 _ _
    path isBase).2 ⟨by decide, by decide⟩
  exact ⟨both.1, both.2 "my@tool.git" rfl (by decide)⟩

end SupplyLint.Clone
