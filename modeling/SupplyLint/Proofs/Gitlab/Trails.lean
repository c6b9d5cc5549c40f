import SupplyLint.Proofs.Gitlab.Lookups

/-! # Trails of child pipelines

A trigger starts a child pipeline with the files that it names, these trigger files
again, and so on. No such trail has more files than a chain may have
(`trail_length`). A file of a trigger is in the chain of its child when it
has a key that no file before it has; a trail of such files holds no file twice
(`trail_distinct`). -/
set_option autoImplicit false

namespace SupplyLint.Gitlab

/-! ## Keys of the files of a trigger -/

def OpensKeys (enter : String → Normalizing (Option Merged)) (item : Value) (target : String)
    (keys : List String) : Prop :=
  ∃ written found, Include.ofValue item = .ok (.file written) ∧ stripped written = target ∧
    outcome (enter target) = .ok (some found) ∧
    Value.toTexts (Field.names (.map found.entries)) = .ok keys

/-- A file has a key that none of the files has which the includes name before it. -/
def HasOwnKey (enter : String → Normalizing (Option Merged)) (items : List Value)
    (target : String) : Prop :=
  ∃ before item after keys key, items = before ++ item :: after ∧
    OpensKeys enter item target keys ∧ key ∈ keys ∧
    ∀ other ∈ before, ∀ place others, OpensKeys enter other place others → key ∉ others

section Keys
variable {enter : String → Normalizing (Option Merged)} {path location target : String}
variable {item : Value} {rest : List Value} {files result : ChildFiles}

theorem childFiles_cons
    (read : outcome (childFiles enter path location (item :: rest) files) = .ok result) :
    ∃ more, outcome (childFiles enter path location rest more) = .ok result ∧
      ((∀ target keys, ¬ OpensKeys enter item target keys) ∧ more.origins = files.origins ∨
        ∃ target keys, OpensKeys enter item target keys ∧
          more.origins = addOrigins target files.origins keys) := by
  obtain ⟨more, takes, later⟩ := childFiles_takes read
  refine ⟨more, later, ?_⟩
  cases takes with
  | @file written found _ names opens added =>
    obtain ⟨keys, texts, rfl⟩ := add_eq_ok added
    exact .inr ⟨stripped written, keys, ⟨written, found, names, rfl, opens, texts⟩, rfl⟩
  | package names =>
    refine .inl ⟨?_, rfl⟩
    rintro target keys ⟨written, found, file, -⟩
    cases names.symm.trans file
  | nothing noFile =>
    refine .inl ⟨?_, rfl⟩
    rintro target keys ⟨written, found, file, rfl, opens, -⟩
    cases (noFile written file).symm.trans opens

theorem OpensKeys.unique {other : String} {keys others : List String}
    (opens : OpensKeys enter item target keys) (again : OpensKeys enter item other others) :
    target = other ∧ keys = others := by
  obtain ⟨written, found, names, rfl, entered, texts⟩ := opens
  obtain ⟨_, _, same, rfl, reentered, sameTexts⟩ := again
  obtain rfl := Include.file.inj (Except.ok.inj (names.symm.trans same))
  obtain rfl := Option.some.inj (Except.ok.inj (entered.symm.trans reentered))
  exact ⟨rfl, Except.ok.inj (texts.symm.trans sameTexts)⟩

theorem childFiles_keeps {items : List Value} {origin : String × String}
    (member : origin ∈ files.origins)
    (read : outcome (childFiles enter path location items files) = .ok result) :
    origin ∈ result.origins := by
  refine childFiles_holds (fun files => origin ∈ files.origins) items ?_ member read
  intro item _ before more takes member
  cases takes with
  | file names opens added =>
    obtain ⟨keys, -, rfl⟩ := add_eq_ok added
    exact mem_addOrigins_of_mem keys member
  | package names => exact member
  | nothing => exact member

theorem mem_origins_of_first {before after : List Value} {keys : List String} {key : String}
    (opens : OpensKeys enter item target keys) (has : key ∈ keys)
    (others : ∀ other ∈ before, ∀ place keys, OpensKeys enter other place keys → key ∉ keys)
    (fresh : key ∉ files.origins.keys)
    (read : outcome (childFiles enter path location (before ++ item :: after) files) = .ok result) :
    (key, target) ∈ result.origins := by
  induction before generalizing files with
  | nil =>
    obtain ⟨more, later, ⟨none, -⟩ | ⟨place, found, again, same⟩⟩ := childFiles_cons read
    · exact absurd opens (none target keys)
    · obtain ⟨rfl, rfl⟩ := opens.unique again
      exact childFiles_keeps (same ▸ mem_addOrigins_of_fresh fresh has) later
  | cons first rest ih =>
    obtain ⟨own, others⟩ := List.forall_mem_cons.mp others
    obtain ⟨more, later, ⟨-, same⟩ | ⟨place, found, opened, same⟩⟩ := childFiles_cons read
    · exact ih others (same ▸ fresh) later
    · refine ih others ?_ later
      rw [same, mem_keys_addOrigins, not_or]
      exact ⟨fresh, own place found opened⟩

end Keys

/-! ## Chains of configurations -/

theorem mem_originFiles {origins : Keyed String String} {target : String} :
    target ∈ originFiles origins ↔ ∃ key, (key, target) ∈ origins := by
  rw [originFiles, List.mem_mergeSort, mem_firsts, Keyed.values, List.mem_map]
  constructor
  · rintro ⟨⟨key, _⟩, member, rfl⟩
    exact ⟨key, member⟩
  · rintro ⟨key, member⟩
    exact ⟨_, member, rfl⟩

theorem nodup_originFiles (origins : Keyed String String) : (originFiles origins).Nodup :=
  (List.mergeSort_perm _ _).nodup_iff.mpr (nodup_foldl_addNew _ List.nodup_nil)

section Chains
variable {resolve : Resolver} {layer child : Layer}

theorem origin_not_mem {chain : List String} {path caller : String} {includes : Value}
    {files : ChildFiles} (opens : openedFiles resolve chain path caller includes = .ok files)
    {origin : String × String} (member : origin ∈ files.origins) : origin.2 ∉ chain := by
  obtain ⟨last, triggered, lastFile⟩ := (openedFiles_areFrom opens).origins origin member
  obtain ⟨before, reached, target, ⟨-, outside, -⟩, -, chained⟩ :=
    Relation.TransGen.tail'_iff.mp triggered
  rw [chained, List.getLast?_concat] at lastFile
  obtain rfl := Option.some.inj lastFile
  exact fun inside => outside ((prefix_of_reached reached).subset inside)

theorem Layer.Triggers.distinct (triggers : layer.Triggers resolve child)
    (distinct : layer.chain.Nodup) : child.chain.Nodup := by
  obtain ⟨name, raw, includes, files, -, -, opens, made⟩ := triggers
  obtain ⟨key, first, rest, origins, rfl⟩ := exists_origin_of_childLayer made
  refine List.Nodup.append distinct (nodup_originFiles _) fun target inside member => ?_
  obtain ⟨key, member⟩ := mem_originFiles.mp member
  exact origin_not_mem opens member inside

theorem chain_distinct {last : Layer}
    (reached : Relation.ReflTransGen (Layer.Triggers resolve) layer last)
    (distinct : layer.chain.Nodup) : last.chain.Nodup := by
  induction reached with
  | refl => exact distinct
  | tail _ triggers ih => exact triggers.distinct ih

theorem length_chain_le {last : Layer}
    (reached : Relation.ReflTransGen (Layer.Triggers resolve) layer last) :
    layer.chain.length ≤ last.chain.length := by
  induction reached with
  | refl => exact Nat.le_refl _
  | tail _ triggers ih => exact ih.trans triggers.length.2.le

/-- No level is missing: child pipelines are read alike with any number of levels that is not
smaller. -/
theorem gather_of_levels {top : Layer} {levels : Nat} (single : top.chain.length = 1)
    (reached : Relation.ReflTransGen (Layer.Triggers resolve) top layer)
    (enough : maxFiles ≤ levels) :
    gather resolve levels layer.chain layer.path layer.origins layer.entries =
      gather resolve maxFiles layer.chain layer.path layer.origins layer.entries := by
  have some := length_chain_le reached
  refine gather_congr (by omega) (by omega) fun last _ name raw includes _ _ lookup _ => rfl

theorem documentLookups_isChain (resolve : Resolver) (path : String) (content : List UInt8) :
    ∀ lookup ∈ documentLookups resolve path content, IsChain lookup.files := by
  rw [forall_documentLookups_iff]
  constructor
  · intro raw _
    exact lookups_isChain ⟨[path], raw⟩ (List.nodup_singleton path)
  · rintro top ⟨raw, merged, -, -, rfl⟩ layer reached name job includes - -
    have distinct := chain_distinct reached (List.nodup_singleton path)
    exact lookups_isChain ⟨layer.chain, [(.text "include", includes)]⟩ distinct

theorem callers_le {top last : Layer} {callers : List String} (single : top.chain.length = 1)
    (way : Way (Layer.TriggersAs resolve) top callers last) : callers.length ≤ maxFiles - 1 := by
  have bound := way.length_le (fun layer => layer.chain.length) maxFiles
    fun _ _ _ triggers => ⟨triggers.triggers.length.2, triggers.triggers.length.1⟩
  rw [single] at bound
  have some : 1 ≤ maxFiles := by decide
  omega

end Chains

/-! ## Trails -/

def Layer.StartsBy (resolve : Resolver) (layer : Layer) (includes : Value) (child : Layer) : Prop :=
  ∃ name raw files, layer.HasJob name raw ∧ Starts raw includes ∧
    openedFiles resolve layer.chain layer.path name includes = .ok files ∧
    childLayer layer.chain files = some child

def Layer.StartsFile (resolve : Resolver) (layer : Layer) (target : String)
    (child : Layer) : Prop :=
  ∃ includes raw, layer.StartsBy resolve includes child ∧
    Opens Includes (opened resolve) ⟨layer.chain, [(.text "include", includes)]⟩
      ⟨layer.chain ++ [target], raw⟩

/-- A file that is opened for such a trigger and has a key that none of its files before has. -/
def Layer.StartsOwn (resolve : Resolver) (layer : Layer) (target : String) (child : Layer) : Prop :=
  ∃ includes, layer.StartsBy resolve includes child ∧
    HasOwnKey (enter resolve layer.path layer.chain) includes.asList target

def Layer.StartsAlone (resolve : Resolver) (layer : Layer) (target : String)
    (child : Layer) : Prop :=
  ∃ includes item raw, includes.asList = [item] ∧ layer.StartsBy resolve includes child ∧
    Opens Includes (opened resolve) ⟨layer.chain, [(.text "include", includes)]⟩
      ⟨layer.chain ++ [target], raw⟩

def Layer.AsksFor (layer : Layer) (target : String) : Prop :=
  ∃ name raw includes, layer.HasJob name raw ∧ Starts raw includes ∧
    Tries Includes ⟨layer.chain, [(.text "include", includes)]⟩ target

section Trails
variable {resolve : Resolver} {layer child top last : Layer} {target : String}
variable {files : List String}

theorem startsBy_of_child {start : String × Value} (member : start ∈ layer.starts)
    (found : layer.child resolve start = some child) : layer.StartsBy resolve start.2 child := by
  obtain ⟨raw, hasJob, starts⟩ := Layer.mem_starts.mp member
  obtain ⟨files, opens, made⟩ := Option.bind_eq_some_iff.mp found
  exact ⟨start.1, raw, files, hasJob, starts, toOption_eq_some.mp opens, made⟩

theorem Layer.StartsBy.triggers {includes : Value}
    (starts : layer.StartsBy resolve includes child) :
    layer.Triggers resolve child := by
  obtain ⟨name, raw, files, hasJob, starts, opens, made⟩ := starts
  exact ⟨name, raw, includes, files, hasJob, starts, opens, made⟩

theorem Layer.StartsOwn.mem_chain (starts : layer.StartsOwn resolve target child) :
    layer.chain <+: child.chain ∧ target ∉ layer.chain ∧ target ∈ child.chain := by
  obtain ⟨includes, ⟨name, raw, files, -, -, opens, made⟩, before, item, after, keys, key, split,
    opensKeys, has, others⟩ := starts
  obtain ⟨_, _, _, -, rfl⟩ := exists_origin_of_childLayer made
  have read := opens
  rw [openedFiles, split] at read
  have member := mem_origins_of_first opensKeys has others (by simp) read
  exact ⟨List.prefix_append _ _, origin_not_mem opens member,
    List.mem_append_right _ (mem_originFiles.mpr ⟨key, member⟩)⟩

theorem includeTarget_of_single {includes item : Value} (single : includes.asList = [item])
    (names : Includes [(.text "include", includes)] target) : includeTarget item = some target := by
  obtain ⟨other, member, written, found, same, plain⟩ := names
  have field : Value.field [(.text "include", includes)] "include" = includes := rfl
  have listed : other ∈ includes.asList := by
    unfold includeItems at member
    rw [field] at member
    cases includes with
    | null => cases member
    | _ => exact member
  rw [single, List.mem_singleton] at listed
  subst listed
  exact includeTarget_eq_some.mpr ⟨written, found, same, plain⟩

/-- The one file of a trigger has a key of its own, since there is no child pipeline without
keys. -/
theorem Layer.StartsAlone.own (starts : layer.StartsAlone resolve target child) :
    layer.StartsOwn resolve target child := by
  obtain ⟨includes, item, raw, single, starts, place, ⟨names, -, -⟩, -, chain⟩ := starts
  obtain rfl : target = place := List.singleton_inj.mp (List.append_cancel_left chain)
  obtain ⟨written, named, same, -⟩ := includeTarget_eq_some.mp
      (includeTarget_of_single single names)
  refine ⟨includes, starts, ?_⟩
  obtain ⟨name, job, files, -, -, opens, made⟩ := starts
  obtain ⟨_, _, _, origins, -⟩ := exists_origin_of_childLayer made
  rw [openedFiles, single] at opens
  obtain ⟨more, last, added⟩ := childFiles_cons opens
  simp only [childFiles, outcome_pure, Except.ok.injEq] at last
  subst last
  obtain ⟨-, none⟩ | ⟨opened, keys, opensKeys, found⟩ := added
  · cases origins.symm.trans none
  · have sameFile : opened = target := by
      obtain ⟨_, _, again, rfl, -⟩ := opensKeys
      obtain rfl := Include.file.inj (Except.ok.inj (named.symm.trans again))
      exact same
    subst sameFile
    cases keys with
    | nil => cases origins.symm.trans found
    | cons key rest =>
      exact ⟨[], item, [], _, key, single, opensKeys, List.mem_cons_self,
        fun other none => absurd none List.not_mem_nil⟩

/-- No trail of files has more files than a chain may have. -/
theorem trail_length (single : top.chain.length = 1)
    (way : Way (Layer.StartsFile resolve) top files last) (asks : last.AsksFor target) :
    (top.path :: (files ++ [target])).length ≤ maxFiles := by
  have grows := way.length_add_le (fun layer => layer.chain.length)
    fun _ _ _ ⟨_, _, starts, _⟩ => starts.triggers.length.2
  obtain ⟨_, _, _, -, -, -, -, short⟩ := asks
  rw [List.length_cons, List.length_append, List.length_singleton]
  dsimp only at grows short
  omega

theorem trail_inside (way : Way (Layer.StartsOwn resolve) top files last)
    (distinct : top.chain.Nodup) :
    (top.chain ++ files).Nodup ∧ top.chain ++ files ⊆ last.chain := by
  induction way with
  | here => simpa using distinct
  | @through layer child last target rest first _ ih =>
    -- What follows is apart from the chain of the child, which holds the file that starts it.
    obtain ⟨longer, outside, inside⟩ := first.mem_chain
    obtain ⟨includes, starts, -⟩ := first
    obtain ⟨apart, within⟩ := ih (starts.triggers.distinct distinct)
    have here : layer.chain ++ [target] ⊆ child.chain :=
      List.append_subset.mpr ⟨longer.subset, List.cons_subset.mpr ⟨inside, List.nil_subset _⟩⟩
    obtain ⟨-, restDistinct, disjoint⟩ := List.nodup_append.mp apart
    rw [← List.singleton_append, ← List.append_assoc]
    obtain ⟨chainWithin, restWithin⟩ := List.append_subset.mp within
    refine ⟨List.nodup_append.mpr ⟨?_, restDistinct, fun a first b later =>
        disjoint a (here first) b later⟩,
      List.append_subset.mpr ⟨List.Subset.trans here chainWithin, restWithin⟩⟩
    exact List.Nodup.append distinct (List.nodup_singleton target) (by simpa using outside)

theorem trail_distinct (single : top.chain = [top.path])
    (way : Way (Layer.StartsOwn resolve) top files last) (asks : last.AsksFor target) :
    (top.path :: (files ++ [target])).Nodup := by
  obtain ⟨distinct, within⟩ := trail_inside way (by rw [single]; exact List.nodup_singleton _)
  obtain ⟨_, _, _, -, -, -, outside, -⟩ := asks
  rw [single] at distinct within
  show ([top.path] ++ (files ++ [target])).Nodup
  rw [← List.append_assoc]
  refine List.Nodup.append distinct (List.nodup_singleton target) ?_
  rw [List.disjoint_singleton]
  exact fun inside => outside (within inside)

end Trails

end SupplyLint.Gitlab
