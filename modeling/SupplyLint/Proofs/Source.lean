import SupplyLint.Proofs.Github.Returns
import SupplyLint.Proofs.Gitlab.Includes
import SupplyLint.Proofs.Yaml.Lines

/-! # What is read of a content

The entries that a workflow or a configuration is read from are those of a mapping
of its content, and so are those of every file that is opened for it. -/
set_option autoImplicit false

namespace SupplyLint

theorem documents_eq_some {path : String} {content : List UInt8} {values : List Value}
    (read : outcome (Source.documents path content) = .ok (some values)) :
    Yaml.load content = .ok values := by
  unfold Source.documents at read
  cases loaded : Yaml.load content with
  | ok found =>
    rw [loaded] at read
    simp only [outcome_pure, Except.ok.injEq, Option.some.injEq] at read
    rw [read]
  | error failure =>
    rw [loaded] at read
    cases failure <;> cases read

theorem mapping_eq_some {path : String} {values : List Value} {raw : Entries}
    (found : (Source.mapping path values).value = some raw) : Value.map raw ∈ values := by
  cases values with
  | nil => cases found
  | cons first rest =>
    cases first with
    | map entries =>
      obtain rfl := Option.some.inj found
      exact List.mem_cons_self
    | _ => cases found

/-- Entries are those of a mapping of a content. -/
def IsMappingOf (content : List UInt8) (raw : Entries) : Prop :=
  ∃ values, Yaml.load content = .ok values ∧ Value.map raw ∈ values

theorem IsMappingOf.holds {content : List UInt8} {raw : Entries}
    (mapping : IsMappingOf content raw) :
    Yaml.Holds content (.map raw) := by
  obtain ⟨values, loaded, member⟩ := mapping
  exact Yaml.load_holds loaded _ member

theorem Github.isMappingOf_entriesOf {path : String} {content : List UInt8} {raw : Entries}
    (read : entriesOf path content = .ok (some raw)) : IsMappingOf content raw := by
  simp only [entriesOf, bind_eq_ok] at read
  obtain ⟨found, loaded, read⟩ := read
  cases found with
  | none => cases read
  | some values => exact ⟨values, documents_eq_some loaded, mapping_eq_some (Except.ok.inj read)⟩

theorem Gitlab.isMappingOf_configuration {path : String} {content : List UInt8} {raw : Entries}
    (read : outcome (configuration path content) = .ok (some raw)) : IsMappingOf content raw := by
  simp only [configuration, outcome_bind, bind_eq_ok] at read
  obtain ⟨found, loaded, read⟩ := read
  cases found with
  | none => cases read
  | some values =>
    refine ⟨values, documents_eq_some loaded, ?_⟩
    have inside := mapping_eq_some (Except.ok.inj read)
    -- A header document is left out, and so are the documents that are empty.
    split at inside
    · next first second more present =>
      have filtered : Value.map raw ∈ first :: second :: more := by
        split at inside
        · exact List.mem_cons_of_mem _ inside
        · rwa [← present]
      rw [← present] at filtered
      exact (List.mem_filter.mp filtered).1
    · exact (List.mem_filter.mp inside).1

/-! ## Files that are opened -/

theorem Github.mapping_of_opened {resolve : Resolver} {target : String} {raw : Entries}
    (read : opened resolve target = .ok (some raw)) :
    ∃ content, resolve target = .ok (some content) ∧ IsMappingOf content raw := by
  obtain ⟨content, looked, found⟩ := lookup_eq_some read
  exact ⟨content, looked, isMappingOf_entriesOf found⟩

theorem Gitlab.mapping_of_opened {resolve : Resolver} {target : String} {raw : Entries}
    (read : opened resolve target = .ok (some raw)) :
    ∃ content, resolve target = .ok (some content) ∧ IsMappingOf content raw := by
  obtain ⟨content, looked, found⟩ := lookup_eq_some read
  exact ⟨content, looked, isMappingOf_configuration found⟩

structure File.ReadFrom (file : File) (path : String) (content : List UInt8) : Prop where
  last : file.chain.getLast? = some path
  mapping : IsMappingOf content file.entries

section Opened
variable {refers : Entries → String → Prop} {opened : String → Except Failure (Option Entries)}
variable {resolve : Resolver} {file last : File}

theorem readFrom_of_opens
    (lookup : ∀ target raw, opened target = .ok (some raw) →
      ∃ content, resolve target = .ok (some content) ∧ IsMappingOf content raw)
    (opens : Opens refers opened file last) :
    ∃ path content, last.ReadFrom path content ∧ resolve path = .ok (some content) := by
  obtain ⟨target, -, found, chain⟩ := opens
  obtain ⟨content, looked, mapping⟩ := lookup target last.entries found
  exact ⟨target, content, ⟨by rw [chain, List.getLast?_concat], mapping⟩, looked⟩

theorem readFrom_of_reached
    (lookup : ∀ target raw, opened target = .ok (some raw) →
      ∃ content, resolve target = .ok (some content) ∧ IsMappingOf content raw)
    {path : String} {content : List UInt8} (start : file.ReadFrom path content)
    (reached : Relation.ReflTransGen (Opens refers opened) file last) :
    ∃ place found, last.ReadFrom place found ∧
      (place = path ∧ found = content ∨ resolve place = .ok (some found)) := by
  rcases Relation.ReflTransGen.cases_tail reached with rfl | ⟨before, -, opens⟩
  · exact ⟨path, content, start, Or.inl ⟨rfl, rfl⟩⟩
  · obtain ⟨place, found, read, looked⟩ := readFrom_of_opens lookup opens
    exact ⟨place, found, read, Or.inr looked⟩

end Opened

end SupplyLint
