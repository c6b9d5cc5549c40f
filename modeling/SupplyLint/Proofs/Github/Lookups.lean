import SupplyLint.Proofs.Github.Inlining
import SupplyLint.Proofs.Github.Origins
import SupplyLint.Proofs.Lookups

/-! # What is looked up for workflows

A workflow looks up the files that its jobs call, and each of these what its own
jobs call. `normalize_of_agree`: nothing else of a resolver matters for the
pipeline of a document. -/
set_option autoImplicit false

namespace SupplyLint.Github

def targets (raw : Entries) : List String :=
  (Field.entries (Value.field raw "jobs")).filterMap entryTarget

theorem refers_targets : Refers targets = Calls := by
  funext raw target
  simp only [Refers, targets, List.mem_filterMap, Calls, entryCalls_iff_entryTarget]

section Agree
variable {first second : Resolver}

theorem openTarget_of_same {target : String} (same : first target = second target) (path : String)
    (caller : Job) : openTarget first path caller target = openTarget second
      path caller target := by
  unfold openTarget
  rw [same]

theorem workflow_of_agree {room : Nat} {chain : List String} {raw : Entries}
    (agree : Agree first second (lookups targets (opened first) room chain raw)) (path : String) :
    workflow first room chain path raw = workflow second room chain path raw := by
  induction room generalizing chain path raw with
  | zero => rfl
  | succ room ih =>
    rw [workflow_eq, workflow_eq]
    refine workflowWith_congr fun target calls caller => ?_
    by_cases inside : target ∈ chain
    · have contains : chain.contains target = true := by simpa using inside
      simp only [followCall]
      rw [if_pos contains, if_pos contains]
    · have refers : Refers targets raw target := by rwa [refers_targets]
      obtain ⟨here, below⟩ := agree.refers refers inside
      rw [followCall_of_not_mem _ _ _ _ inside, followCall_of_not_mem _ _ _ _ inside,
        openTarget_of_same here]
      refine bind_congr_of_outcome fun found opens => ?_
      cases found with
      | none => rfl
      | some called =>
        rw [← openTarget_of_same here, outcome_openTarget] at opens
        exact congrArg (some <$> ·) (ih (below called opens) target)

end Agree

/-! ## Whole documents -/

/-- What is looked up for a document: nothing for an action, which calls no files. -/
def documentLookups (resolve : Resolver) (path : String) (content : List UInt8) : List Lookup :=
  match entriesOf path content with
  | .ok (some raw) =>
    if isActionMetadata path then []
    else lookups targets (opened resolve) (maxFiles - 1) [path] raw
  | _ => []

section Documents
variable {path : String} {content : List UInt8}

theorem documentLookups_of_entries {raw : Entries}
    (loaded : entriesOf path content = .ok (some raw))
    (resolve : Resolver) : documentLookups resolve path content =
      if isActionMetadata path then []
      else lookups targets (opened resolve) (maxFiles - 1) [path] raw := by
  unfold documentLookups
  rw [loaded]

theorem forall_documentLookups {resolve : Resolver} {holds : Lookup → Prop}
    (each : ∀ raw, entriesOf path content = .ok (some raw) → isActionMetadata path = false →
      ∀ lookup ∈ lookups targets (opened resolve) (maxFiles - 1) [path] raw, holds lookup) :
    ∀ lookup ∈ documentLookups resolve path content, holds lookup := by
  intro lookup member
  unfold documentLookups at member
  split at member
  · next raw loaded =>
    split at member
    · cases member
    · next noAction => exact each raw loaded (by simpa using noAction) lookup member
  · cases member

theorem documentLookups_isChain (resolve : Resolver) :
    ∀ lookup ∈ documentLookups resolve path content, IsChain lookup.files :=
  forall_documentLookups fun raw _ _ =>
    lookups_isChain ⟨[path], raw⟩ (List.nodup_singleton path)

/-- A document is read alike with resolvers that agree on what is looked up for it. -/
theorem normalize_of_agree {first second : Resolver}
    (agree : Agree first second (documentLookups first path content)) :
    normalize first path content = normalize second path content := by
  rw [normalize_eq, normalize_eq]
  refine bind_congr_of_outcome fun found opens => ?_
  cases found with
  | none => rfl
  | some raw =>
    rw [outcome_openContent] at opens
    rw [documentLookups_of_entries opens] at agree
    simp only [pipelineOf]
    by_cases isAction : isActionMetadata path = true
    · rw [if_pos isAction, if_pos isAction]
    · rw [if_neg isAction] at agree
      rw [if_neg isAction, if_neg isAction]
      exact workflow_of_agree agree path

theorem fileLoads_of_returns {resolve : Resolver}
    (returned : Returns (outcome (normalize resolve path content))) :
    ∀ lookup ∈ documentLookups resolve path content, FileLoads resolve lookup.target := by
  refine forall_documentLookups fun raw loaded isWorkflow => ?_
  have readable := ((returns_normalize resolve path content).mp returned).2 raw loaded
  rw [EntriesReadable, if_neg (by simp [isWorkflow])] at readable
  rw [← refers_targets] at readable
  exact (forall_lookups_iff (fun lookup => FileLoads resolve lookup.target) ⟨[path], raw⟩).mpr
    fun next reached target tries => (readable next reached).loads target (refers_targets ▸ tries)

theorem callers_le {resolve : Resolver} {raw : Entries} {last : File} {callers : List String}
    (way : Way (OpensAs resolve) ⟨[path], raw⟩ callers last) : callers.length ≤ maxFiles - 1 := by
  have bound := way.length_le (fun file => file.chain.length) maxFiles
    fun file caller next opens => by
      obtain ⟨target, -, ⟨-, -, short⟩, -, chain⟩ := opens
      rw [chain, List.length_append, List.length_singleton]
      exact ⟨Nat.lt_succ_self _, short⟩
  have some : 1 ≤ maxFiles := by decide
  dsimp only [List.length_singleton] at bound
  omega

end Documents

end SupplyLint.Github
