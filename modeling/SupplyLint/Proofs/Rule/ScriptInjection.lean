import SupplyLint.Proofs.Rule.Expression
import SupplyLint.Rule.ScriptInjection

/-! # Which values of a user are found in scripts

For workflows a context is reported exactly if an expression of the text mentions it
(`mem_untrustedContexts_github`), so that no text in front of a script or behind it hides
one. For GitLab a variable is reported wherever a dollar sign expands it
(`mem_of_expands`), and nothing is reported that is not written in the text
(`stands_of_mem`). -/
set_option autoImplicit false

namespace SupplyLint.Rule.ScriptInjection

open SupplyLint.Text

/-! ## Names of contexts -/

/-- A text names a context: it is the context with a property or an index in place of each star. -/
inductive Names : List Char → List Char → Prop
  | nil : Names [] []
  | char {c : Char} {context text : List Char} : (∀ more, c :: context ≠ '.' :: '*' :: more) →
      Names context text → Names (c :: context) (c :: text)
  | property {name context text : List Char} : name ≠ [] → (∀ c ∈ name, isPropertyChar c = true) →
      Names context text → Names ('.' :: '*' :: context) ('.' :: (name ++ text))
  | index {name context text : List Char} : ']' ∉ name →
      Names context text → Names ('.' :: '*' :: context) ('[' :: (name ++ ']' :: text))

/-- Behind each star of a context comes a further property, so that the one in its place has an
end. -/
def starsEnd : List Char → Bool
  | [] => true
  | '.' :: '*' :: more => more.head? == some '.' && starsEnd more
  | _ :: more => starsEnd more

theorem starsEnd_untrusted : ∀ context ∈ untrustedContextNames, starsEnd context.toList = true := by
  decide +kernel

theorem afterProperty_eq_some {text rest : List Char} (found : afterProperty text = some rest) :
    (∃ name, name ≠ [] ∧ (∀ c ∈ name, isPropertyChar c = true) ∧ text = '.' :: (name ++ rest)) ∨
      ∃ name, ']' ∉ name ∧ text = '[' :: (name ++ ']' :: rest) := by
  unfold afterProperty at found
  split at found
  · next tail =>
    dsimp only at found
    split at found
    · next shorter =>
      obtain rfl := Option.some.inj found
      have split : tail = tail.takeWhile isPropertyChar ++ tail.dropWhile isPropertyChar :=
        List.takeWhile_append_dropWhile.symm
      refine Or.inl ⟨tail.takeWhile isPropertyChar, fun none => ?_, fun c inside => ?_, ?_⟩
      · rw [none, List.nil_append] at split
        exact absurd (congrArg List.length split) (by omega)
      · exact List.mem_takeWhile_imp inside
      · rw [← split]
    · cases found
  · next tail =>
    obtain ⟨⟨name, after⟩, cut, rfl⟩ := Option.map_eq_some_iff.mp found
    obtain ⟨rfl, absent⟩ := cutFirst_eq_some cut
    exact Or.inr ⟨name, absent, rfl⟩
  · cases found

theorem afterProperty_property {name rest : List Char} (filled : name ≠ [])
    (within : ∀ c ∈ name, isPropertyChar c = true)
    (ends : ∀ c ∈ rest.head?, isPropertyChar c = false) :
    afterProperty ('.' :: (name ++ rest)) = some rest := by
  have shorter : rest.length < (name ++ rest).length := by
    simpa using List.length_pos_iff.mpr filled
  simp only [afterProperty]
  rw [dropWhile_run within ends, if_pos shorter]

theorem afterProperty_index {name rest : List Char} (within : ']' ∉ name) :
    afterProperty ('[' :: (name ++ ']' :: rest)) = some rest := by
  simp only [afterProperty]
  rw [cutFirst_append within]
  rfl

theorem names_of_afterContext {context text after : List Char}
    (found : afterContext context text = some after) :
    ∃ named, Names context named ∧ text = named ++ after := by
  induction context using starsEnd.induct generalizing text with
  | case1 => exact ⟨[], .nil, Option.some.inj found⟩
  | case2 more ih =>
    obtain ⟨rest, property, found⟩ := Option.bind_eq_some_iff.mp found
    obtain ⟨named, names, rfl⟩ := ih found
    rcases afterProperty_eq_some property with ⟨name, filled, within, rfl⟩ | ⟨name, within, rfl⟩
    · exact ⟨'.' :: (name ++ named), .property filled within names, by simp⟩
    · exact ⟨'[' :: (name ++ ']' :: named), .index within names, by simp⟩
  | case3 c more plain ih =>
    cases text with
    | nil =>
      rw [afterContext.eq_4 c more plain] at found
      cases found
    | cons d text =>
      rw [afterContext.eq_3 c more d text plain] at found
      split at found
      · next same =>
        obtain ⟨named, names, rfl⟩ := ih found
        refine ⟨d :: named, same ▸ .char (fun star shape => ?_) names, rfl⟩
        obtain ⟨isDot, isStar⟩ := List.cons.inj shape
        exact plain star isDot isStar
      · cases found

theorem Names.ends {context named : List Char} (names : Names context named)
    (dotted : context.head? = some '.') : ∃ c ∈ named.head?, isPropertyChar c = false := by
  cases names with
  | nil => cases dotted
  | char plain names =>
    obtain rfl := Option.some.inj dotted
    exact ⟨'.', rfl, by decide⟩
  | property filled within names => exact ⟨'.', rfl, by decide⟩
  | index within names => exact ⟨'[', rfl, by decide⟩

theorem afterContext_of_names {context named : List Char} (names : Names context named)
    (bounded : starsEnd context = true) (after : List Char) :
    afterContext context (named ++ after) = some after := by
  induction names with
  | nil => rfl
  | @char c context text plain names ih =>
    have noStar (more : List Char) (isDot : c = '.') (isStar : context = '*' :: more) : False :=
      plain more (by rw [isDot, isStar])
    rw [starsEnd.eq_3 c context noStar] at bounded
    rw [List.cons_append, afterContext.eq_3 c context c _ noStar, if_pos rfl]
    exact ih bounded
  | @property name context text filled within names ih =>
    simp only [starsEnd, Bool.and_eq_true, beq_iff_eq] at bounded
    obtain ⟨c, isHead, stops⟩ := names.ends bounded.1
    have ends : ∀ d ∈ (text ++ after).head?, isPropertyChar d = false := by
      intro d first
      rw [List.head?_append, Option.mem_def.mp isHead] at first
      obtain rfl := Option.some.inj first
      exact stops
    rw [afterContext, List.cons_append, List.append_assoc,
      afterProperty_property filled within ends]
    exact ih bounded.2
  | index within names ih =>
    simp only [starsEnd, Bool.and_eq_true] at bounded
    rw [afterContext, List.cons_append, List.append_assoc, List.cons_append,
      afterProperty_index within]
    exact ih bounded.2

/-! ## Contexts among other words -/

/-- A context is named in a text, with no word character right before or behind it. -/
def Mentions (context text : List Char) : Prop :=
  ∃ before named after, text = before ++ (named ++ after) ∧ Names context named ∧
    endsWord before.reverse = true ∧ endsWord after = true

theorem startsWithContext_iff {context text : List Char} (bounded : starsEnd context = true) :
    startsWithContext context text = true ↔
      ∃ named after, text = named ++ after ∧ Names context named ∧ endsWord after = true := by
  unfold startsWithContext
  constructor
  · intro starts
    split at starts
    · next after found =>
      obtain ⟨named, names, rfl⟩ := names_of_afterContext found
      exact ⟨named, after, rfl, names, starts⟩
    · cases starts
  · rintro ⟨named, after, rfl, names, ends⟩
    rw [afterContext_of_names names bounded after]
    exact ends

def endsInWord (inWord : Bool) : List Char → Bool
  | [] => inWord
  | c :: rest => endsInWord (isWord c) rest

theorem endsInWord_concat (inWord : Bool) (text : List Char) (c : Char) :
    endsInWord inWord (text ++ [c]) = isWord c := by
  induction text generalizing inWord with
  | nil => rfl
  | cons d text ih => exact ih (isWord d)

theorem endsInWord_eq_false {text : List Char} :
    endsInWord false text = false ↔ endsWord text.reverse = true := by
  rcases List.eq_nil_or_concat text with rfl | ⟨start, c, rfl⟩
  · simp [endsInWord, endsWord]
  · simp [endsInWord_concat, endsWord]

theorem mentionsContext_eq_true {context text : List Char} {inWord : Bool} :
    mentionsContext context inWord text = true ↔
      ∃ before rest, text = before ++ rest ∧ rest ≠ [] ∧ endsInWord inWord before = false ∧
        startsWithContext context rest = true := by
  induction text generalizing inWord with
  | nil =>
    refine iff_of_false Bool.false_ne_true ?_
    rintro ⟨before, rest, split, filled, -⟩
    exact filled (List.append_eq_nil_iff.mp split.symm).2
  | cons c text ih =>
    rw [mentionsContext, Bool.or_eq_true, Bool.and_eq_true, Bool.not_eq_true', ih]
    constructor
    · rintro (⟨apart, starts⟩ | ⟨before, rest, rfl, filled, apart, starts⟩)
      · exact ⟨[], c :: text, rfl, List.cons_ne_nil c text, apart, starts⟩
      · exact ⟨c :: before, rest, rfl, filled, apart, starts⟩
    · rintro ⟨before, rest, split, filled, apart, starts⟩
      cases before with
      | nil => exact Or.inl ⟨apart, (show c :: text = rest from split) ▸ starts⟩
      | cons d before =>
        obtain ⟨rfl, rfl⟩ := List.cons.inj split
        exact Or.inr ⟨before, rest, rfl, filled, apart, starts⟩

/-- The contexts that are looked for start with a letter, and their stars have an end. -/
structure IsSought (context : List Char) : Prop where
  lettered : context.head? = some 'g'
  bounded : starsEnd context = true

theorem isSought_untrusted : ∀ context ∈ untrustedContextNames, IsSought context.toList := by
  have lettered : ∀ context ∈ untrustedContextNames, context.toList.head? = some 'g' := by
    decide +kernel
  exact fun context listed => ⟨lettered context listed, starsEnd_untrusted context listed⟩

theorem Names.lettered {context named : List Char} (names : Names context named)
    (lettered : context.head? = some 'g') : ∃ rest, named = 'g' :: rest := by
  cases names with
  | nil => cases lettered
  | char plain names =>
    obtain rfl := Option.some.inj lettered
    exact ⟨_, rfl⟩
  | property => cases lettered
  | index => cases lettered

theorem mentionsContext_iff {context text : List Char} (sought : IsSought context) :
    mentionsContext context false text = true ↔ Mentions context text := by
  rw [mentionsContext_eq_true]
  simp only [startsWithContext_iff sought.bounded, endsInWord_eq_false]
  constructor
  · rintro ⟨before, rest, rfl, filled, apart, named, after, rfl, names, ends⟩
    exact ⟨before, named, after, rfl, names, apart, ends⟩
  · rintro ⟨before, named, after, rfl, names, apart, ends⟩
    obtain ⟨tail, rfl⟩ := names.lettered sought.lettered
    exact ⟨before, _, rfl, by simp, apart, _, after, rfl, names, ends⟩

theorem Mentions.of_suffix {context expression text : List Char} (sought : IsSought context)
    (mentions : Mentions context expression) (is : IsExpression expression)
    (ends : expression <:+ text) : Mentions context text := by
  obtain ⟨before, named, after, split, names, apart, last⟩ := mentions
  obtain ⟨front, rfl⟩ := ends
  refine ⟨front ++ before, named, after, by rw [split, List.append_assoc], names, ?_, last⟩
  -- an expression starts with no letter, so that something of it stands before the context
  obtain ⟨tail, isCons⟩ := is.eq_cons
  obtain ⟨rest, rfl⟩ := names.lettered sought.lettered
  rcases List.eq_nil_or_concat before with rfl | ⟨start, c, rfl⟩
  · rw [isCons] at split
    exact absurd (List.cons.inj split).1 (by decide)
  · simpa [endsWord] using apart

/-- A context is reported exactly if an expression in the text mentions it. -/
theorem mem_untrustedContexts_github {text context : String} :
    context ∈ untrustedContexts text .github ↔ context ∈ untrustedContextNames ∧
      ∃ expression, expression <:+: text.toList ∧ IsExpression expression ∧
        Mentions context.toList expression := by
  have unfolded : untrustedContexts text .github = untrustedContextNames.filter fun context =>
      (expressions text).any (mentionsContext context.toList false) := rfl
  rw [unfolded, List.mem_filter]
  refine and_congr_right fun listed => ?_
  have sought := isSought_untrusted context listed
  simp only [List.any_eq_true, mentionsContext_iff sought]
  constructor
  · rintro ⟨expression, member, mentions⟩
    obtain ⟨is, stands⟩ := isExpression_of_mem member
    exact ⟨expression, stands, is, mentions⟩
  · rintro ⟨expression, stands, is, mentions⟩
    obtain ⟨found, member, ends⟩ := exists_mem_expressions is stands
    exact ⟨found, member, mentions.of_suffix sought is ends⟩

theorem untrustedContexts_of_infix {part text : String} (inside : part.toList <:+: text.toList) :
    untrustedContexts part .github ⊆ untrustedContexts text .github := by
  intro context member
  obtain ⟨listed, expression, stands, is, mentions⟩ := mem_untrustedContexts_github.mp member
  exact mem_untrustedContexts_github.mpr ⟨listed, expression, stands.trans inside, is, mentions⟩

/-- An untrusted context is reported exactly if an expression mentions it, wherever in the text the
expression stands; so text in front of a script or behind it hides none. -/
theorem no_text_hides_contexts :
    (∀ text context, context ∈ untrustedContexts text .github ↔ context ∈ untrustedContextNames ∧
      ∃ expression, expression <:+: text.toList ∧ IsExpression expression ∧
        Mentions context.toList expression) ∧
    ∀ first second,
      untrustedContexts first .github ⊆ untrustedContexts (first ++ second) .github ∧
        untrustedContexts second .github ⊆ untrustedContexts (first ++ second) .github := by
  refine ⟨fun text context => mem_untrustedContexts_github, fun first second => ⟨?_, ?_⟩⟩
  · exact untrustedContexts_of_infix
      (by rw [String.toList_append]; exact (List.prefix_append _ _).isInfix)
  · exact untrustedContexts_of_infix
      (by rw [String.toList_append]; exact (List.suffix_append _ _).isInfix)

/-! ## Untrusted variables -/

theorem isMark_eq_false {c : Char} (named : isNameChar c = true) : isMark c = false := by
  have plain : c ≠ '$' ∧ c ≠ '{' ∧ c ≠ '}' ∧ c ≠ '%' := by
    refine ⟨?_, ?_, ?_, ?_⟩ <;>
      · rintro rfl
        exact absurd named (by decide)
  simp [isMark, plain]

theorem variableName_of_frames {start name stop rest : List Char} (isName : IsName name)
    (frames : Frames start stop rest) :
    variableName (start ++ (name ++ stop)) = String.ofList name := by
  have marks : (∀ c ∈ start, isMark c = true) ∧ ∀ c ∈ stop, isMark c = true := by
    cases frames with
    | dollar isStart isStop _ =>
      constructor
      · rcases List.mem_pair.mp isStart with rfl | rfl <;> exact List.all_eq_true.mp (by decide)
      · rcases List.mem_pair.mp isStop with rfl | rfl <;> exact List.all_eq_true.mp (by decide)
    | percent => exact ⟨List.all_eq_true.mp (by decide), List.all_eq_true.mp (by decide)⟩
  rw [variableName, trimBy_around marks.1
    (fun c inside => isMark_eq_false (isName.2 c inside)) marks.2]

theorem isName_untrusted : ∀ name ∈ untrustedVariableNames, IsName name.toList := by
  decide +kernel

theorem mem_untrustedContexts_gitlab {text name : String} :
    name ∈ untrustedContexts text .gitlab ↔ name ∈ untrustedVariableNames ∧
      ∃ written ∈ variableNames text, variableName written = name := by
  have unfolded : untrustedContexts text .gitlab = untrustedVariableNames.filter fun name =>
      ((variableNames text).map variableName).contains name := rfl
  rw [unfolded, List.mem_filter, List.contains_iff_mem, List.mem_map]

theorem mem_of_expands {text name : String} (listed : name ∈ untrustedVariableNames)
    (expands : Expands text.toList name.toList) : name ∈ untrustedContexts text .gitlab := by
  have isName := isName_untrusted name listed
  obtain ⟨start, stop, rest, frames, member⟩ := exists_mem_variableNames isName expands
  refine mem_untrustedContexts_gitlab.mpr ⟨listed, _, member, ?_⟩
  rw [variableName_of_frames isName frames, String.ofList_toList]

theorem stands_of_mem {text name : String} (member : name ∈ untrustedContexts text .gitlab) :
    Expands text.toList name.toList ∨ '%' :: (name.toList ++ ['%']) <:+: text.toList := by
  obtain ⟨-, written, found, named⟩ := mem_untrustedContexts_gitlab.mp member
  obtain ⟨before, start, body, stop, rest, isName, frames, rfl, split⟩ := frames_of_mem found
  rw [variableName_of_frames isName frames] at named
  obtain rfl : body = name.toList := by rw [← named, String.toList_ofList]
  cases frames with
  | dollar isStart isStop ends =>
    exact Or.inl ⟨before, start, stop ++ rest, isStart, by simpa using split, ends⟩
  | percent => exact Or.inr ⟨before, rest, by simpa using split.symm⟩

theorem ordered_untrustedVariableNames :
    untrustedVariableNames.Pairwise fun x y => compareText x y = .lt := by
  decide

/-- Every untrusted variable that a dollar sign expands is reported; what is reported is one that a
dollar sign expands or that stands between percent signs; and the report is in order, with nothing
in it twice. -/
theorem expanded_variables_are_found (text : String) :
    (∀ name ∈ untrustedVariableNames, Expands text.toList name.toList →
      name ∈ untrustedContexts text .gitlab) ∧
    (∀ name ∈ untrustedContexts text .gitlab, name ∈ untrustedVariableNames ∧
      (Expands text.toList name.toList ∨ '%' :: (name.toList ++ ['%']) <:+: text.toList)) ∧
    (untrustedContexts text .gitlab).Pairwise fun x y => compareText x y = .lt := by
  refine ⟨fun name listed => mem_of_expands listed, fun name member => ?_, ?_⟩
  · exact ⟨(mem_untrustedContexts_gitlab.mp member).1, stands_of_mem member⟩
  · exact ordered_untrustedVariableNames.sublist List.filter_sublist

/-- A variable behind a percent sign and other variables, in braces that are not closed. -/
def unclosed : String := "%$%A$CI_COMMIT_TITLES$\x7bCI_COMMIT_TITLE:-"

theorem unclosed_expands : Expands unclosed.toList "CI_COMMIT_TITLE".toList :=
  ⟨"%$%A$CI_COMMIT_TITLES".toList, ['$', '{'], ":-".toList, by decide, by decide, by decide⟩

theorem unclosed_is_found :
    "CI_COMMIT_TITLE" ∈ untrustedVariableNames ∧ Expands unclosed.toList "CI_COMMIT_TITLE".toList ∧
      "CI_COMMIT_TITLE" ∈ untrustedContexts unclosed .gitlab := by
  have listed : "CI_COMMIT_TITLE" ∈ untrustedVariableNames := by decide
  exact ⟨listed, unclosed_expands,
    (expanded_variables_are_found unclosed).1 "CI_COMMIT_TITLE" listed unclosed_expands⟩

end SupplyLint.Rule.ScriptInjection
