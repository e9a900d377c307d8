import EmuChef.Editor.ReferenceLaw
import Mathlib.Data.List.DropRight

/-! Which renamings and deletions of the Recipe editor keep the references of the Recipe
consistent. -/

namespace EmuChef.Editor

open Authored (Recipe Step RecipeArtifact)
open Planner (ParamValue trim)

section

variable {recipe updated : Recipe} {kind : Renamable} {former latter : String}

theorem trim_trim (text : String) : trim (trim text) = trim text := by
  have head (blank : Char → Bool) (letters : List Char) :
      ((letters.dropWhile blank).rdropWhile blank).dropWhile blank =
        (letters.dropWhile blank).rdropWhile blank := by
    refine List.dropWhile_eq_self_iff.mpr fun filled => ?_
    have inside := (List.rdropWhile_prefix blank (l := letters.dropWhile blank)).getElem filled
    rw [inside]
    exact List.dropWhile_get_zero_not blank letters _
  change String.ofList (((String.ofList _).toList.dropWhile _).rdropWhile _) = _
  rw [String.toList_ofList]
  change String.ofList ((((text.toList.dropWhile _).rdropWhile _).dropWhile _).rdropWhile _) = _
  rw [head, List.rdropWhile_idempotent]
  rfl

theorem normalizeIdentifier_eq_ok {value label normalized : String} :
    normalizeIdentifier value label = .ok normalized ↔
      normalized = trim value ∧ trim value ≠ "" := by
  rw [normalizeIdentifier]
  split_ifs with empty
  · simp [empty]
  · simp [empty, eq_comm]

theorem renameOrderedMapKey_eq {α : Type} {mapping : OrderedMap String α} {value : α}
    (held : mapping.get? former = some value) :
    renameOrderedMapKey mapping former latter value = .ok (mapping.renameKey former latter) := by
  have inside : former ∈ mapping.keys :=
    OrderedMap.get?_isSome.mp (by rw [held, Option.isSome_some])
  rw [renameOrderedMapKey, if_pos inside, OrderedMap.renameKey, OrderedMap.ofList, List.foldl_map]
  refine congrArg Except.ok ?_
  refine List.foldl_ext _ _ _ fun built entry member => ?_
  split_ifs with same
  · have found : mapping.get? former = some entry.2 := OrderedMap.get?_eq_some.mpr (same ▸ member)
    rw [Option.some.inj (held.symm.trans found)]
  · rfl

def Renamable.keys (kind : Renamable) (recipe : Recipe) : List String :=
  match kind with
  | input => recipe.inputs.keys
  | artifact => recipe.artifacts.keys
  | group => recipe.artifactGroups.keys

def renameMember (former latter member : String) : String :=
  if member = former then latter else member

def Renamable.renameRecipe (kind : Renamable) (former latter : String) (recipe : Recipe) : Recipe :=
  match kind with
  | input =>
      { recipe with
        inputs := recipe.inputs.renameKey former latter
        steps := recipe.steps.map (input.renameStep former latter) }
  | artifact =>
      { recipe with
        artifacts := recipe.artifacts.renameKey former latter
        artifactGroups := recipe.artifactGroups.mapValues fun _ members =>
          members.map (renameMember former latter)
        steps := recipe.steps.map (artifact.renameStep former latter) }
  | group =>
      { recipe with
        artifactGroups := recipe.artifactGroups.renameKey former latter
        steps := recipe.steps.map (group.renameStep former latter) }

theorem steps_renamed {refKind : RefTargetKind} (held : kind.refKind = some refKind) :
    (recipe.steps.map fun step => rewriteStepRefs step refKind former latter) =
      recipe.steps.map (kind.renameStep former latter) :=
  List.map_congr_left fun _ _ => rewriteStepRefs_eq held

theorem accepted_iff {α : Type} {mapping : OrderedMap String α} {value : α} {taken : String}
    {built : OrderedMap String α → Recipe} (held : mapping.get? former = some value) :
    (if latter ≠ former ∧ latter ∈ mapping.keys then .error taken
      else (renameOrderedMapKey mapping former latter value).bind fun renamed =>
        .ok (built renamed)) = Except.ok updated ↔
      (latter = former ∨ latter ∉ mapping.keys) ∧ updated = built (mapping.renameKey former latter) := by
  rw [renameOrderedMapKey_eq held]
  split_ifs with clash
  · simp [clash.1, clash.2]
  · have free : latter = former ∨ latter ∉ mapping.keys := by
      rwa [not_and_or, not_ne_iff] at clash
    rw [and_iff_right free, Except.bind, Except.ok.injEq, eq_comm]

theorem updatedRecipe_command : updatedRecipe recipe (kind.command former latter) = .ok updated ↔
    former ∈ kind.keys recipe ∧ trim latter ≠ "" ∧
      (trim latter = former ∨ trim latter ∉ kind.keys recipe) ∧
      updated = kind.renameRecipe former (trim latter) recipe := by
  cases kind with
  | input =>
      change updatedRenameInputRecipe recipe former latter = _ ↔ former ∈ recipe.inputs.keys ∧ _
      rw [updatedRenameInputRecipe, Checks.bind_eq_ok, ← OrderedMap.get?_isSome]
      simp only [normalizeIdentifier_eq_ok, and_assoc, exists_eq_left]
      cases found : recipe.inputs.get? former with
      | none => simp
      | some value =>
          refine (and_congr_right fun _ => accepted_iff found).trans ?_
          simp only [@steps_renamed recipe .input _ _ _ rfl, Option.isSome_some, true_and]
          rfl
  | artifact =>
      change updatedRenameArtifactRecipe recipe former latter = _ ↔ former ∈ recipe.artifacts.keys ∧ _
      rw [updatedRenameArtifactRecipe, Checks.bind_eq_ok, ← OrderedMap.get?_isSome]
      simp only [normalizeIdentifier_eq_ok, and_assoc, exists_eq_left]
      cases found : recipe.artifacts.get? former with
      | none => simp
      | some value =>
          refine (and_congr_right fun _ => accepted_iff found).trans ?_
          simp only [@steps_renamed recipe .artifact _ _ _ rfl, Option.isSome_some, true_and]
          rfl
  | group =>
      change updatedRenameArtifactGroupRecipe recipe former latter = _ ↔
        former ∈ recipe.artifactGroups.keys ∧ _
      rw [updatedRenameArtifactGroupRecipe, Checks.bind_eq_ok, ← OrderedMap.get?_isSome]
      simp only [normalizeIdentifier_eq_ok, and_assoc, exists_eq_left]
      cases found : recipe.artifactGroups.get? former with
      | none => simp
      | some value =>
          refine (and_congr_right fun _ => accepted_iff found).trans ?_
          simp only [rewriteArtifactGroupSelection_eq, Option.isSome_some, true_and]
          rfl

end

section

variable {recipe : Recipe} {kind : Renamable} {former latter : String}

def Renamable.Mentions (kind : Renamable) (id : String) (recipe : Recipe) : Prop :=
  (∃ step ∈ recipe.steps, kind.StepMentions id step) ∨
    kind = .artifact ∧ ∃ members ∈ recipe.artifactGroups.values, id ∈ members

def Bound (id : String) (recipe : Recipe) : Prop :=
  (∃ artifact ∈ recipe.artifacts.values, artifactInput artifact = some id) ∨
    baseInput recipe.config = some id

def StepOverlooks (identity : Identity) (step : Step) : Prop :=
  ∃ entry ∈ step.params.entries, isSupportedStepParam step entry.1 = false ∧
    ∃ reference ∈ paramReferences entry.1 entry.2, reference.target = identity

/-- The object is named where no command looks: by a parameter that the type of its step does not
list, or as the input of an App Artifact or of the configuration. -/
def Overlooked (identity : Identity) (recipe : Recipe) : Prop :=
  (∃ step ∈ recipe.steps, StepOverlooks identity step) ∨
    ∃ id, identity = .input id ∧ Bound id recipe

theorem Renamable.renameRecipe_self : kind.renameRecipe former former recipe = recipe := by
  have steps : recipe.steps.map (kind.renameStep former former) = recipe.steps :=
    (List.map_congr_left fun _ _ => renameStep_self).trans (List.map_id recipe.steps)
  have groups : (recipe.artifactGroups.mapValues fun _ members =>
      members.map (renameMember former former)) = recipe.artifactGroups := by
    refine OrderedMap.mapValues_eq_self fun entry _ => ?_
    refine (List.map_congr_left fun member _ => ?_).trans (List.map_id entry.2)
    rw [renameMember]
    split_ifs with same
    · exact same.symm
    · rfl
  cases kind with
  | input => simp only [renameRecipe, steps, OrderedMap.renameKey_self]
  | artifact => simp only [renameRecipe, steps, groups, OrderedMap.renameKey_self]
  | group => simp only [renameRecipe, steps, OrderedMap.renameKey_self]

theorem keys_renameRecipe (free : latter = former ∨ latter ∉ kind.keys recipe) :
    kind.keys (kind.renameRecipe former latter recipe) =
      (kind.keys recipe).map (renameMember former latter) := by
  cases kind with
  | input => exact OrderedMap.keys_renameKey free
  | artifact => exact OrderedMap.keys_renameKey free
  | group => exact OrderedMap.keys_renameKey free

theorem renameMember_back (other : former ≠ latter) (member : String) :
    renameMember latter former (renameMember former latter member) = member ↔ member ≠ latter := by
  by_cases named : member = former
  · simp [renameMember, named, other]
  · by_cases same : member = latter
    · simp [renameMember, same, other, Ne.symm other]
    · simp [renameMember, named, same]

theorem Renamable.renameRecipe_back (other : former ≠ latter) (absent : latter ∉ kind.keys recipe) :
    kind.renameRecipe latter former (kind.renameRecipe former latter recipe) = recipe ↔
      ¬ kind.Mentions latter recipe := by
  have steps : (recipe.steps.map (kind.renameStep former latter)).map
      (kind.renameStep latter former) = recipe.steps ↔
        ∀ step ∈ recipe.steps, ¬ kind.StepMentions latter step := by
    rw [List.map_map]
    conv_lhs => rhs; rw [← List.map_id recipe.steps]
    rw [List.map_inj_left]
    exact forall₂_congr fun step _ => renameStep_back other
  have groups : ((recipe.artifactGroups.mapValues fun _ members =>
      members.map (renameMember former latter)).mapValues fun _ members =>
        members.map (renameMember latter former)) = recipe.artifactGroups ↔
      ∀ members ∈ recipe.artifactGroups.values, latter ∉ members := by
    rw [OrderedMap.mapValues_mapValues, OrderedMap.mapValues_eq_self_iff, OrderedMap.values,
      List.forall_mem_map]
    refine forall₂_congr fun entry _ => ?_
    rw [List.map_map]
    conv_lhs => rhs; rw [← List.map_id entry.2]
    rw [List.map_inj_left]
    constructor
    · exact fun same inside => (renameMember_back other latter).mp (same latter inside) rfl
    · exact fun apart member inside =>
        (renameMember_back other member).mpr fun same => apart (same ▸ inside)
  cases kind with
  | input =>
      have keys : (recipe.inputs.renameKey former latter).renameKey latter former = recipe.inputs :=
        OrderedMap.renameKey_back absent
      have mentions : ¬ input.Mentions latter recipe ↔
          ∀ step ∈ recipe.steps, ¬ input.StepMentions latter step := by simp [Mentions]
      rw [mentions, ← steps]
      simp only [renameRecipe, keys]
      exact ⟨congrArg Recipe.steps, fun same => by rw [same]⟩
  | artifact =>
      have keys : (recipe.artifacts.renameKey former latter).renameKey latter former =
          recipe.artifacts := OrderedMap.renameKey_back absent
      have mentions : ¬ artifact.Mentions latter recipe ↔
          (∀ step ∈ recipe.steps, ¬ artifact.StepMentions latter step) ∧
            ∀ members ∈ recipe.artifactGroups.values, latter ∉ members := by
        simp [Mentions, not_or]
      rw [mentions, ← steps, ← groups]
      simp only [renameRecipe, keys]
      exact ⟨fun same => ⟨congrArg Recipe.steps same, congrArg Recipe.artifactGroups same⟩,
        fun same => by rw [same.1, same.2]⟩
  | group =>
      have keys : (recipe.artifactGroups.renameKey former latter).renameKey latter former =
          recipe.artifactGroups := OrderedMap.renameKey_back absent
      have mentions : ¬ group.Mentions latter recipe ↔
          ∀ step ∈ recipe.steps, ¬ group.StepMentions latter step := by simp [Mentions]
      rw [mentions, ← steps]
      simp only [renameRecipe, keys]
      exact ⟨congrArg Recipe.steps, fun same => by rw [same]⟩

theorem restored_iff (inside : former ∈ kind.keys recipe) (other : former ≠ latter)
    (absent : latter ∉ kind.keys recipe) (filled : former ≠ "") :
    updatedRecipe (kind.renameRecipe former latter recipe) (kind.command latter former) = .ok recipe ↔
      trim former = former ∧ ¬ kind.Mentions latter recipe := by
  have keys := @keys_renameRecipe recipe kind former latter (.inr absent)
  rw [updatedRecipe_command, keys]
  have gone : former ∉ (kind.keys recipe).map (renameMember former latter) := by
    rw [List.mem_map]
    rintro ⟨key, _, same⟩
    rw [renameMember] at same
    split_ifs at same with named
    · exact other same.symm
    · exact named same
  have present : latter ∈ (kind.keys recipe).map (renameMember former latter) :=
    List.mem_map.mpr ⟨former, inside, by rw [renameMember, if_pos rfl]⟩
  constructor
  · rintro ⟨_, _, free, same⟩
    have trimmed : trim former = former := by
      have back := congrArg kind.keys same
      rw [keys_renameRecipe (keys ▸ free), keys] at back
      rw [back, List.mem_map] at inside
      obtain ⟨key, held, written⟩ := inside
      rw [renameMember] at written
      split_ifs at written with named
      · exact written
      · exact absurd (written ▸ held) gone
    rw [trimmed] at same
    exact ⟨trimmed, (Renamable.renameRecipe_back other absent).mp same.symm⟩
  · rintro ⟨trimmed, apart⟩
    rw [trimmed]
    exact ⟨present, filled, .inr gone, ((Renamable.renameRecipe_back other absent).mpr apart).symm⟩

theorem bound_entry {entry : Place × Reference}
    (member : entry ∈ (recipe.artifacts.values.zipIdx.flatMap fun entry =>
      bindingReferences entry.2 entry.1) ++ baseReferences recipe.config) :
    followed recipe entry.1 = false ∧ ∃ id, entry.2.target = .input id := by
  rcases List.mem_append.mp member with inside | inside
  · obtain ⟨_, _, inside⟩ := List.mem_flatMap.mp inside
    obtain ⟨id, _, rfl⟩ := List.mem_map.mp inside
    exact ⟨rfl, id, rfl⟩
  · obtain ⟨id, _, rfl⟩ := List.mem_map.mp inside
    exact ⟨rfl, id, rfl⟩

theorem exists_bound {id : String} : (∃ entry ∈ (recipe.artifacts.values.zipIdx.flatMap fun entry =>
    bindingReferences entry.2 entry.1) ++ baseReferences recipe.config,
      entry.2.target = .input id) ↔ Bound id recipe := by
  have single (place : Place) (held : Option String) :
      (∃ entry ∈ held.toList.map fun id => (place, (⟨.input id, none⟩ : Reference)),
        entry.2.target = .input id) ↔ held = some id := by
    cases held with
    | none => simp
    | some other => simp
  have listed : (∃ entry ∈ recipe.artifacts.values.zipIdx.flatMap fun entry =>
      bindingReferences entry.2 entry.1, entry.2.target = .input id) ↔
        ∃ artifact ∈ recipe.artifacts.values, artifactInput artifact = some id := by
    simp only [List.mem_flatMap]
    constructor
    · rintro ⟨entry, ⟨held, member, inside⟩, target⟩
      have numbered := List.mk_mem_zipIdx_iff_getElem?.mp member
      exact ⟨held.1, List.mem_of_getElem? numbered, (single _ _).mp ⟨entry, inside, target⟩⟩
    · rintro ⟨artifact, member, takes⟩
      obtain ⟨index, found⟩ := List.getElem?_of_mem member
      obtain ⟨entry, inside, target⟩ := (single (.binding index) _).mpr takes
      exact ⟨entry, ⟨(artifact, index), List.mk_mem_zipIdx_iff_getElem?.mpr found, inside⟩, target⟩
  rw [Bound, ← listed, ← single .base]
  simp only [List.mem_append, or_and_right, exists_or]
  rfl

theorem references_renameRecipe (before : former ≠ "") (after : latter ≠ "")
    (free : latter = former ∨ latter ∉ kind.keys recipe) :
    references (kind.renameRecipe former latter recipe) =
      (references recipe).map (moved recipe (kind.identity former) (kind.identity latter)) := by
  have steps : ((recipe.steps.map (kind.renameStep former latter)).zipIdx.flatMap fun entry =>
        stepReferences entry.2 entry.1) =
      (recipe.steps.zipIdx.flatMap fun entry => stepReferences entry.2 entry.1).map
        (moved recipe (kind.identity former) (kind.identity latter)) := by
    rw [List.zipIdx_map, List.flatMap_map, List.map_flatMap]
    exact List.flatMap_congr fun entry listed =>
      Renamable.stepReferences_renameStep before after (List.mk_mem_zipIdx_iff_getElem?.mp listed)
  have still {entries : List (Place × Reference)}
      (other : ∀ entry ∈ entries, followed recipe entry.1 = true →
        entry.2.target ≠ kind.identity former) :
      entries = entries.map (moved recipe (kind.identity former) (kind.identity latter)) := by
    refine ((List.map_congr_left fun entry member => ?_).trans (List.map_id _)).symm
    rw [moved]
    split_ifs with follows
    · rw [Reference.rename_of_ne (other entry member follows), id]
    · rfl
  have bound := still fun entry member follows => by
    rw [(bound_entry member).1] at follows
    cases follows
  have apart (other : kind ≠ .artifact) :=
    @still (recipe.artifactGroups.values.zipIdx.flatMap fun entry =>
        memberReferences entry.2 entry.1) fun entry member _ target => by
      obtain ⟨held, _, inside⟩ := List.mem_flatMap.mp member
      obtain ⟨id, _, rfl⟩ := List.mem_map.mp inside
      cases kind with
      | input | group => cases target
      | artifact => exact other rfl
  have members : ((recipe.artifactGroups.values.map fun members =>
        members.map (renameMember former latter)).zipIdx.flatMap fun entry =>
          memberReferences entry.2 entry.1) =
      (recipe.artifactGroups.values.zipIdx.flatMap fun entry =>
        memberReferences entry.2 entry.1).map
          (moved recipe (.artifact former) (.artifact latter)) := by
    rw [List.zipIdx_map, List.flatMap_map, List.map_flatMap]
    refine List.flatMap_congr fun entry _ => ?_
    simp only [memberReferences, Prod.map_fst, Prod.map_snd, List.map_map, id]
    refine List.map_congr_left fun member _ => ?_
    by_cases named : member = former
    · simp [renameMember, moved, followed, Reference.rename, Identity.rename, named]
    · simp [renameMember, moved, followed, Reference.rename, Identity.rename, named]
  have parts (recipe : Recipe) : references recipe =
      (recipe.steps.zipIdx.flatMap fun entry => stepReferences entry.2 entry.1) ++
        ((recipe.artifactGroups.values.zipIdx.flatMap fun entry =>
          memberReferences entry.2 entry.1) ++
        ((recipe.artifacts.values.zipIdx.flatMap fun entry => bindingReferences entry.2 entry.1) ++
          baseReferences recipe.config)) := by
    simp only [references, List.append_assoc]
  rw [parts, parts recipe, List.map_append, List.map_append, ← bound, ← steps]
  cases kind with
  | input =>
      rw [← apart (by decide)]
      rfl
  | artifact =>
      have values : (recipe.artifactGroups.mapValues fun _ members =>
          members.map (renameMember former latter)).values =
          recipe.artifactGroups.values.map fun members =>
            members.map (renameMember former latter) := by
        simp only [OrderedMap.values, OrderedMap.mapValues, List.map_map, Function.comp_def]
      simp only [Renamable.renameRecipe, values, OrderedMap.values_renameKey free, members]
      rfl
  | group =>
      rw [← apart (by decide)]
      simp only [Renamable.renameRecipe, OrderedMap.values_renameKey free]

theorem exists_overlooked {identity : Identity} : (∃ entry ∈ references recipe,
    followed recipe entry.1 = false ∧ entry.2.target = identity) ↔ Overlooked identity recipe := by
  rw [references, List.append_assoc]
  constructor
  · rintro ⟨entry, member, skipped, target⟩
    rcases List.mem_append.mp member with inside | inside
    · rcases List.mem_append.mp inside with inside | inside
      · obtain ⟨⟨step, index⟩, listed, inside⟩ := List.mem_flatMap.mp inside
        have found := List.mk_mem_zipIdx_iff_getElem?.mp listed
        simp only [stepReferences, List.mem_append, List.mem_flatMap, List.mem_map] at inside
        obtain (⟨param, held, reference, named, rfl⟩ | ⟨_, _, rfl⟩) | ⟨_, _, rfl⟩ := inside
        · refine .inl ⟨step, List.mem_of_getElem? found, param, held, ?_, reference, named, target⟩
          simpa [followed, found] using skipped
        · cases skipped
        · cases skipped
      · obtain ⟨_, _, inside⟩ := List.mem_flatMap.mp inside
        obtain ⟨_, _, rfl⟩ := List.mem_map.mp inside
        cases skipped
    · obtain ⟨_, id, named⟩ := bound_entry inside
      obtain rfl := target.symm.trans named
      exact .inr ⟨id, rfl, exists_bound.mp ⟨entry, inside, named⟩⟩
  · rintro (⟨step, listed, param, held, unsupported, reference, named, target⟩ | ⟨id, rfl, bound⟩)
    · obtain ⟨index, found⟩ := List.getElem?_of_mem listed
      refine ⟨(.param index param.1, reference), ?_, by simp [followed, found, unsupported], target⟩
      refine List.mem_append_left _ (List.mem_append_left _ (List.mem_flatMap.mpr
        ⟨(step, index), List.mk_mem_zipIdx_iff_getElem?.mpr found, ?_⟩))
      simp only [stepReferences, List.mem_append, List.mem_flatMap, List.mem_map]
      exact .inl (.inl ⟨param, held, reference, named, rfl⟩)
    · obtain ⟨entry, member, target⟩ := exists_bound.mpr bound
      exact ⟨entry, List.mem_append_right _ member, (bound_entry member).1, target⟩

theorem Reference.rename_self (reference : Reference) (identity : Identity) :
    reference.rename identity identity = reference := by
  rw [Reference.rename, Identity.rename]
  split_ifs with same
  · rw [← same]
  · rfl

theorem references_follow_iff (before : former ≠ "") (after : latter ≠ "") (other : former ≠ latter)
    (absent : latter ∉ kind.keys recipe) :
    references (kind.renameRecipe former latter recipe) = (references recipe).map (fun entry =>
        (entry.1, entry.2.rename (kind.identity former) (kind.identity latter))) ↔
      ¬ Overlooked (kind.identity former) recipe := by
  have apart : kind.identity former ≠ kind.identity latter := by
    cases kind with
    | input => exact fun same => other (Identity.input.inj same)
    | artifact => exact fun same => other (Identity.artifact.inj same)
    | group => exact fun same => other (Identity.group.inj same)
  rw [references_renameRecipe before after (.inr absent), List.map_inj_left, ← exists_overlooked]
  push Not
  refine forall₂_congr fun entry _ => ?_
  cases follows : followed recipe entry.1 with
  | true => simp [moved, follows]
  | false =>
      rw [moved, follows, if_neg Bool.false_ne_true, forall_prop_of_true rfl]
      constructor
      · intro same target
        have renamed := congrArg (fun entry : Place × Reference => entry.2.target) same
        simp only [Reference.rename, Identity.rename, target] at renamed
        exact apart renamed
      · exact fun target => by rw [Reference.rename_of_ne target]

theorem declaration_renameRecipe (free : latter = former ∨ latter ∉ kind.keys recipe) :
    declaration? (kind.renameRecipe former latter recipe) (kind.identity latter) =
      declaration? recipe (kind.identity former) := by
  cases kind with
  | input => exact congrArg (Option.map Declaration.input) (OrderedMap.get?_renameKey free)
  | artifact => exact congrArg (Option.map Declaration.artifact) (OrderedMap.get?_renameKey free)
  | group => exact congrArg (Option.map Declaration.group) (OrderedMap.get?_renameKey free)

theorem renamedKeys_self (identity : String → Identity) (distinct : Function.Injective identity)
    (keys : List String) : (keys.map (renameMember former latter)).map identity =
      renamedKeys identity (identity former) (identity latter) keys := by
  rw [renamedKeys, List.map_map]
  refine List.map_congr_left fun key _ => ?_
  by_cases named : key = former
  · simp [renameMember, Identity.rename, named]
  · have apart : identity key ≠ identity former := fun same => named (distinct same)
    simp [renameMember, Identity.rename, named, apart]

theorem renamedKeys_other {identity : String → Identity} {before after : Identity}
    (apart : ∀ key, identity key ≠ before) (keys : List String) :
    keys.map identity = renamedKeys identity before after keys :=
  List.map_congr_left fun key _ => by rw [Identity.rename, if_neg (apart key)]

theorem keys_renamed (free : latter = former ∨ latter ∉ kind.keys recipe) :
    (kind.renameRecipe former latter recipe).inputs.keys.map .input =
      renamedKeys .input (kind.identity former) (kind.identity latter) recipe.inputs.keys ∧
    (kind.renameRecipe former latter recipe).artifacts.keys.map .artifact =
      renamedKeys .artifact (kind.identity former) (kind.identity latter) recipe.artifacts.keys ∧
    (kind.renameRecipe former latter recipe).artifactGroups.keys.map .group =
      renamedKeys .group (kind.identity former) (kind.identity latter) recipe.artifactGroups.keys := by
  have moved := @keys_renameRecipe recipe kind former latter free
  cases kind with
  | input =>
      refine ⟨?_, renamedKeys_other (fun _ same => by cases same) _,
        renamedKeys_other (fun _ same => by cases same) _⟩
      exact (congrArg _ moved).trans (renamedKeys_self _ (fun _ _ => Identity.input.inj) _)
  | artifact =>
      refine ⟨renamedKeys_other (fun _ same => by cases same) _, ?_, ?_⟩
      · exact (congrArg _ moved).trans (renamedKeys_self _ (fun _ _ => Identity.artifact.inj) _)
      · simp only [Renamable.renameRecipe, OrderedMap.keys_mapValues]
        exact renamedKeys_other (fun _ same => by cases same) _
  | group =>
      refine ⟨renamedKeys_other (fun _ same => by cases same) _,
        renamedKeys_other (fun _ same => by cases same) _, ?_⟩
      exact (congrArg _ moved).trans (renamedKeys_self _ (fun _ _ => Identity.group.inj) _)

theorem params_renamed : ((kind.renameRecipe former latter recipe).steps.map fun step =>
    step.params.keys) = recipe.steps.map fun step => step.params.keys := by
  have single : ((recipe.steps.map (kind.renameStep former latter)).map fun step =>
      step.params.keys) = recipe.steps.map fun step => step.params.keys := by
    rw [List.map_map]
    exact List.map_congr_left fun step _ => OrderedMap.keys_mapValues
  cases kind with
  | input | artifact | group => exact single

theorem renamed_iff {updated : Recipe} (filled : former ≠ "")
    (accepted : updatedRecipe recipe (kind.command former latter) = .ok updated) :
    Renamed recipe updated (kind.identity former) (kind.identity (trim latter))
        (kind.command (trim latter) former) ↔
      former = trim latter ∨
        trim former = former ∧ ¬ kind.Mentions (trim latter) recipe ∧
          ¬ Overlooked (kind.identity former) recipe := by
  obtain ⟨inside, named, free, rfl⟩ := updatedRecipe_command.mp accepted
  obtain ⟨inputs, artifacts, groups⟩ := @keys_renamed recipe kind former (trim latter) free
  by_cases same : former = trim latter
  · refine iff_of_true ⟨?_, declaration_renameRecipe free, inputs, artifacts, groups,
      params_renamed, ?_⟩ (.inl same)
    · rw [← same, Renamable.renameRecipe_self]
      refine ((List.map_congr_left fun entry _ => ?_).trans (List.map_id _)).symm
      exact congrArg (Prod.mk entry.1) (Reference.rename_self entry.2 _)
    · rw [← same, Renamable.renameRecipe_self, updatedRecipe_command]
      have trimmed : trim former = former := by rw [same, trim_trim]
      exact ⟨inside, fun blank => filled (trimmed.symm.trans blank), .inl trimmed,
        by rw [trimmed, Renamable.renameRecipe_self]⟩
  · have absent : trim latter ∉ kind.keys recipe := free.resolve_left (Ne.symm same)
    have follow := references_follow_iff filled named same absent
    have back := restored_iff inside same absent filled
    rw [or_iff_right same]
    constructor
    · intro whole
      obtain ⟨trimmed, apart⟩ := back.mp whole.restored
      exact ⟨trimmed, apart, follow.mp whole.references⟩
    · rintro ⟨trimmed, apart, unbound⟩
      exact ⟨follow.mpr unbound, declaration_renameRecipe free, inputs, artifacts, groups,
        params_renamed, back.mpr ⟨trimmed, apart⟩⟩

end

section

variable {recipe updated : Recipe} {refKind : RefTargetKind} {id name : String}

def RefTargetKind.identity : RefTargetKind → String → Identity
  | input => .input
  | artifact => .artifact
  | step => .step

def keptParam (refKind : RefTargetKind) (id name : String) : ParamValue → Option ParamValue
  | .ref refValue => if refMatches refValue refKind id then none else some (.ref refValue)
  | .literal value => some (.literal
      (if refKind = .artifact ∧ name = "artifacts" then
        (removeStringSequenceValue value id).getD value
      else value))
  | .appTarget targetId => some (.appTarget targetId)

theorem params_removeStepRefs (step : Step) : (removeStepRefs step refKind id).params =
    step.params.revise fun name value =>
      if isSupportedStepParam step name then keptParam refKind id name value else some value := by
  have loop : (removeStepRefs step refKind id).params =
      step.params.entries.foldl (removeStepParam step refKind id) step.params := by
    cases refKind with
    | input | artifact | step => rfl
  refine loop.trans (OrderedMap.foldl_revise fun params name value found => ?_)
  have kept : params = params.insert name value := (OrderedMap.insert_eq_self found).symm
  rw [removeStepParam]
  by_cases supported : isSupportedStepParam step name = true
  · rw [if_pos supported, if_pos supported]
    cases value with
    | ref refValue =>
        simp only [keptParam]
        split_ifs with matched
        · rfl
        · exact kept
    | literal items =>
        simp only [keptParam]
        split_ifs with selects
        · cases removeStringSequenceValue items id with
          | some written => rfl
          | none => exact kept
        · exact kept
    | appTarget targetId => exact kept
  · rw [if_neg supported, if_neg supported]
    exact kept

theorem refMatches_step {refValue : String} {parsed : Planner.RuntimeRef}
    (found : Planner.parseReference refValue = some parsed)
    (target : (ofRuntimeRef parsed).target = .step id) : refMatches refValue .step id = true := by
  rcases spelling found with ⟨_, rfl, _⟩ | ⟨_, _, rfl, _⟩ | ⟨held, rfl, rfl⟩ |
    ⟨held, field, rfl, filled, rfl⟩
  · cases target
  · cases target
  · cases target
    rw [refMatches, rewriteRef, if_pos rfl, Option.isSome_some]
  · cases target
    have lead : ("steps." ++ id ++ ".outputs." ++ field).toList =
        ("steps." ++ id ++ ".outputs.").toList ++ field.toList := String.toList_append
    rw [refMatches, rewriteRef]
    split_ifs with shorthand
    · rfl
    · rw [lead, Split.stripLead_append, Option.bind_some, if_neg (by simpa using filled)]
      rfl

theorem refMatches_of_target {refValue : String} {parsed : Planner.RuntimeRef}
    (found : Planner.parseReference refValue = some parsed)
    (target : (ofRuntimeRef parsed).target = refKind.identity id) :
    refMatches refValue refKind id = true := by
  cases refKind with
  | input =>
      obtain ⟨_, held, rewrites⟩ := @Renamable.target_of_parse .input id id parsed _ found target
      cases held
      exact rewrites
  | artifact =>
      obtain ⟨_, held, rewrites⟩ := @Renamable.target_of_parse .artifact id id parsed _ found target
      cases held
      exact rewrites
  | step => exact refMatches_step found target

theorem selected_removed {identity : String → Identity} (distinct : Function.Injective identity)
    {items : Json} {reference : Reference}
    (member : reference ∈ selected identity ((removeStringSequenceValue items id).getD items)) :
    reference.target ≠ identity id := by
  cases items with
  | array held =>
      rw [removeStringSequenceValue] at member
      split_ifs at member with present
      · obtain ⟨other, text, rfl⟩ := List.mem_map.mp member
        obtain ⟨item, inside, same⟩ := List.mem_filterMap.mp text
        have apart := (List.mem_filter.mp inside).2
        exact fun met => absurd same (by simpa [distinct met] using apart)
      · obtain ⟨other, text, rfl⟩ := List.mem_map.mp member
        obtain ⟨item, inside, same⟩ := List.mem_filterMap.mp text
        refine fun met => present (List.any_eq_true.mpr ⟨item, inside, ?_⟩)
        simpa [distinct met] using same
  | _ => cases member

theorem keptParam_references {value kept : ParamValue} (held : keptParam refKind id name value = some kept)
    {reference : Reference} (member : reference ∈ paramReferences name kept) :
    reference.target ≠ refKind.identity id := by
  cases value with
  | ref refValue =>
      rw [keptParam] at held
      split_ifs at held with matched
      cases held
      simp only [paramReferences, Option.mem_toList, Option.map_eq_some_iff] at member
      obtain ⟨parsed, found, rfl⟩ := member
      exact fun target => matched (refMatches_of_target found target)
  | appTarget targetId =>
      cases held
      cases member
  | literal items =>
      cases held
      rw [paramReferences] at member
      by_cases artifacts : name = "artifacts"
      · rw [if_pos artifacts] at member
        cases refKind with
        | artifact =>
            rw [if_pos ⟨rfl, artifacts⟩] at member
            exact selected_removed (fun _ _ => Identity.artifact.inj) member
        | input | step =>
            obtain ⟨other, same⟩ := selected_target member
            exact fun met => by cases same.symm.trans met
      · rw [if_neg artifacts] at member
        by_cases groups : name = "artifact_groups"
        · rw [if_pos groups] at member
          obtain ⟨other, same⟩ := selected_target member
          cases refKind with
          | input | artifact | step => exact fun met => by cases same.symm.trans met
        · rw [if_neg groups] at member
          cases member

variable {step : Step}

theorem stepReferences_removed {index : Nat} :
    ∀ entry ∈ stepReferences index (removeStepRefs step refKind id),
      (∀ name, entry.1 = .param index name → isSupportedStepParam step name = true) →
        entry.2.target ≠ refKind.identity id := by
  intro entry member supports
  simp only [stepReferences, List.mem_append, List.mem_flatMap, List.mem_map] at member
  obtain (⟨⟨name, value⟩, held, reference, listed, rfl⟩ | ⟨other, named, rfl⟩) | ⟨other, named, rfl⟩ :=
    member
  · rw [params_removeStepRefs] at held
    obtain ⟨former, _, kept⟩ := OrderedMap.mem_entries_revise.mp held
    rw [if_pos (supports name rfl)] at kept
    exact keptParam_references kept listed
  · cases refKind with
    | input | artifact => exact fun met => by cases met
    | step =>
        have apart := (List.mem_filter.mp named).2
        exact fun met => absurd (Identity.step.inj met) (by simpa using apart)
  · cases refKind with
    | input | artifact => exact fun met => by cases met
    | step =>
        have apart := (List.mem_filter.mp named).2
        exact fun met => absurd (Identity.step.inj met) (by simpa using apart)

theorem supported_removed : isSupportedStepParam (removeStepRefs step refKind id) name =
    isSupportedStepParam step name := by
  cases refKind with
  | input | artifact | step => rfl

variable {identity : Identity}

theorem stepOverlooks_removed :
    StepOverlooks identity (removeStepRefs step refKind id) ↔ StepOverlooks identity step := by
  simp only [StepOverlooks, supported_removed, params_removeStepRefs, Prod.exists,
    OrderedMap.mem_entries_revise]
  refine exists_congr fun name => exists_congr fun value => ?_
  by_cases supported : isSupportedStepParam step name = true
  · simp [supported]
  · simp [supported]

theorem group_references {value : ParamValue} {reference : Reference}
    (member : reference ∈ paramReferences name value) (target : reference.target = .group id) :
    name = "artifact_groups" ∧ ∃ items, value = .literal items ∧ reference ∈ selected .group items := by
  cases value with
  | ref refValue =>
      simp only [paramReferences, Option.mem_toList, Option.map_eq_some_iff] at member
      obtain ⟨parsed, _, rfl⟩ := member
      cases parsed with
      | input | artifactField | stepShorthand | stepOutput => cases target
  | appTarget targetId => cases member
  | literal items =>
      rw [paramReferences] at member
      split_ifs at member with artifacts groups
      · obtain ⟨other, same⟩ := selected_target member
        cases same.symm.trans target
      · exact ⟨groups, items, rfl, member⟩
      · cases member

theorem selection_removed (supported : isSupportedStepParam step "artifact_groups" = true)
    {items : Json} (found : (removeArtifactGroupSelection step id).params.get? "artifact_groups" =
      some (.literal items)) : ∃ held, items = (removeStringSequenceValue held id).getD held := by
  rw [removeArtifactGroupSelection, if_pos supported] at found
  cases held : step.params.get? "artifact_groups" with
  | none => simp [held] at found
  | some value =>
      cases value with
      | literal former =>
          cases removed : removeStringSequenceValue former id with
          | none =>
              simp only [held, removed, Option.some.injEq, ParamValue.literal.injEq] at found
              exact ⟨former, by rw [removed, Option.getD_none, found]⟩
          | some written =>
              simp only [held, removed, OrderedMap.get?_insert, if_true, Option.some.injEq,
                ParamValue.literal.injEq] at found
              exact ⟨former, by rw [removed, Option.getD_some, found]⟩
      | _ => simp [held] at found

theorem typeName_removed : (removeArtifactGroupSelection step id).typeName = step.typeName := by
  rw [removeArtifactGroupSelection]
  split
  · split
    · split
      · rfl
      · rfl
    · rfl
  · rfl

theorem supported_group_removed : isSupportedStepParam (removeArtifactGroupSelection step id) name =
      isSupportedStepParam step name := by
  rw [isSupportedStepParam, isSupportedStepParam, typeName_removed]

theorem stepReferences_group_removed {index : Nat} :
    ∀ entry ∈ stepReferences index (removeArtifactGroupSelection step id),
      (∀ name, entry.1 = .param index name → isSupportedStepParam step name = true) →
        entry.2.target ≠ .group id := by
  intro entry member supports
  simp only [stepReferences, List.mem_append, List.mem_flatMap, List.mem_map] at member
  obtain (⟨⟨name, value⟩, held, reference, listed, rfl⟩ | ⟨other, _, rfl⟩) | ⟨other, _, rfl⟩ :=
    member
  · intro target
    obtain ⟨rfl, items, rfl, inside⟩ := group_references listed target
    obtain ⟨former, rfl⟩ := selection_removed (supports _ rfl) (OrderedMap.get?_eq_some.mpr held)
    exact selected_removed (fun _ _ => Identity.group.inj) inside target
  · exact fun met => by cases met
  · exact fun met => by cases met

theorem stepOverlooks_group_removed :
    StepOverlooks identity (removeArtifactGroupSelection step id) ↔ StepOverlooks identity step := by
  simp only [StepOverlooks, supported_group_removed, Prod.exists]
  refine exists_congr fun name => exists_congr fun value => ?_
  by_cases listed : isSupportedStepParam step name = true
  · simp [listed]
  · have kept : (removeArtifactGroupSelection step id).params.get? name = step.params.get? name := by
      rw [removeArtifactGroupSelection]
      split_ifs with selects
      · have other : name ≠ "artifact_groups" := fun same => listed (same ▸ selects)
        split
        · split
          · simp [OrderedMap.get?_insert, other]
          · rfl
        · rfl
      · rfl
    rw [← OrderedMap.get?_eq_some, ← OrderedMap.get?_eq_some, kept]

theorem forgotten_iff (steps : ∀ step ∈ updated.steps, ∀ index, ∀ entry ∈ stepReferences index step,
      (∀ name, entry.1 = .param index name → isSupportedStepParam step name = true) →
        entry.2.target ≠ identity)
    (members : ∀ members ∈ updated.artifactGroups.values, ∀ member ∈ members,
      Identity.artifact member ≠ identity) :
    Forgotten updated identity ↔ ¬ Overlooked identity updated := by
  rw [← exists_overlooked]
  constructor
  · rintro forgotten ⟨entry, member, _, target⟩
    exact forgotten entry member target
  · intro none entry member target
    have follows : followed updated entry.1 = true := by
      by_contra skipped
      exact none ⟨entry, member, by simpa using skipped, target⟩
    rw [references, List.append_assoc, List.mem_append, List.mem_append] at member
    rcases member with (inside | inside) | inside
    · obtain ⟨held, listed, inside⟩ := List.mem_flatMap.mp inside
      refine steps held.1 (List.fst_mem_of_mem_zipIdx listed) _ entry inside ?_ target
      rintro name same
      simpa [same, followed, List.mk_mem_zipIdx_iff_getElem?.mp listed] using follows
    · obtain ⟨held, listed, inside⟩ := List.mem_flatMap.mp inside
      obtain ⟨member, named, rfl⟩ := List.mem_map.mp inside
      exact members held.1 (List.fst_mem_of_mem_zipIdx listed) member named target
    · rw [(bound_entry inside).1] at follows
      cases follows

theorem steps_removed {steps : List Step} :
    ∀ step ∈ steps.map (fun step => removeStepRefs step refKind id), ∀ index,
      ∀ entry ∈ stepReferences index step,
        (∀ name, entry.1 = .param index name → isSupportedStepParam step name = true) →
          entry.2.target ≠ refKind.identity id := by
  intro step member index entry listed supports
  obtain ⟨former, _, rfl⟩ := List.mem_map.mp member
  exact stepReferences_removed entry listed fun name same => supported_removed ▸ supports name same

/-- What a deletion leaves in the steps is what it overlooks. -/
theorem overlooked_map {steps : List Step} {remove : Step → Step}
    (each : ∀ step, StepOverlooks identity (remove step) ↔ StepOverlooks identity step)
    (removed : updated.steps = steps.map remove)
    (bound : ∀ id, identity = .input id → (Bound id updated ↔ Bound id recipe)) :
    Overlooked identity updated ↔ Overlooked identity { recipe with steps := steps } := by
  refine or_congr ?_ (exists_congr fun id => and_congr_right (bound id))
  simp [removed, each]

theorem deleteInput_iff (accepted : updatedRecipe recipe (.deleteInput id) = .ok updated) :
    Forgotten updated (.input id) ↔ ¬ Overlooked (.input id) recipe := by
  change updatedDeleteInputRecipe recipe id = .ok updated at accepted
  rw [updatedDeleteInputRecipe] at accepted
  split_ifs at accepted
  cases accepted
  rw [forgotten_iff (@steps_removed .input id _) fun _ _ _ _ met => by cases met]
  exact not_congr (overlooked_map (fun _ => stepOverlooks_removed) rfl fun _ _ => Iff.rfl)

theorem deleteArtifact_iff (accepted : updatedRecipe recipe (.deleteArtifact id) = .ok updated) :
    Forgotten updated (.artifact id) ↔ ¬ Overlooked (.artifact id) recipe := by
  change updatedDeleteArtifactRecipe recipe id = .ok updated at accepted
  rw [updatedDeleteArtifactRecipe] at accepted
  split_ifs at accepted
  cases accepted
  rw [forgotten_iff (@steps_removed .artifact id _)]
  · exact not_congr (overlooked_map (fun _ => stepOverlooks_removed) rfl fun _ met => by cases met)
  · intro members listed member inside met
    simp only [OrderedMap.values, OrderedMap.mapValues, List.map_map, List.mem_map,
      Function.comp_apply] at listed
    obtain ⟨entry, _, rfl⟩ := listed
    have apart := (List.mem_filter.mp inside).2
    exact absurd (Identity.artifact.inj met) (by simpa using apart)

theorem deleteArtifactGroup_iff
    (accepted : updatedRecipe recipe (.deleteArtifactGroup id) = .ok updated) :
    Forgotten updated (.group id) ↔ ¬ Overlooked (.group id) recipe := by
  change updatedDeleteArtifactGroupRecipe recipe id = .ok updated at accepted
  rw [updatedDeleteArtifactGroupRecipe] at accepted
  split_ifs at accepted
  cases accepted
  rw [@forgotten_iff _ (.group id) _ fun _ _ _ _ met => by cases met]
  · exact not_congr
      (overlooked_map (fun _ => stepOverlooks_group_removed) rfl fun _ met => by cases met)
  · intro step member index entry listed supports
    obtain ⟨former, _, rfl⟩ := List.mem_map.mp member
    exact stepReferences_group_removed entry listed fun name same =>
      supported_group_removed ▸ supports name same

theorem deleteStep_iff (accepted : updatedRecipe recipe (.deleteStep id) = .ok updated) :
    Forgotten updated (.step id) ↔
      ¬ Overlooked (.step id) { recipe with steps := recipe.steps.eraseP (·.id = id) } := by
  change updatedDeleteStepRecipe recipe id = .ok updated at accepted
  rw [updatedDeleteStepRecipe] at accepted
  rw [List.eraseP_eq_eraseIdx]
  split at accepted
  next => cases accepted
  next index found =>
    cases accepted
    rw [found, forgotten_iff (@steps_removed .step id _) fun _ _ _ _ met => by cases met]
    exact not_congr (overlooked_map (fun _ => stepOverlooks_removed) rfl fun _ met => by cases met)

end

section

variable {recipe updated : Recipe} {command : RecipeCommand}

/-- The commands after which the references are consistent: one that changes no name, one that
gives a trimmed id a name which nothing mentioned before, one that deletes. No place that the
commands overlook may name the object that is renamed or deleted. -/
def Handled (recipe : Recipe) : RecipeCommand → Prop
  | .renameInput former latter => former = trim latter ∨ trim former = former ∧
      ¬ Renamable.input.Mentions (trim latter) recipe ∧ ¬ Overlooked (.input former) recipe
  | .renameArtifact former latter => former = trim latter ∨ trim former = former ∧
      ¬ Renamable.artifact.Mentions (trim latter) recipe ∧ ¬ Overlooked (.artifact former) recipe
  | .renameArtifactGroup former latter => former = trim latter ∨ trim former = former ∧
      ¬ Renamable.group.Mentions (trim latter) recipe ∧ ¬ Overlooked (.group former) recipe
  | .deleteInput id => ¬ Overlooked (.input id) recipe
  | .deleteArtifact id => ¬ Overlooked (.artifact id) recipe
  | .deleteArtifactGroup id => ¬ Overlooked (.group id) recipe
  | .deleteStep id =>
      ¬ Overlooked (.step id) { recipe with steps := recipe.steps.eraseP (·.id = id) }

/-- An accepted command leaves the references of the Recipe consistent exactly when it is handled. -/
theorem consistent_iff (decoded : command.Decoded)
    (accepted : updatedRecipe recipe command = .ok updated) :
    Consistent recipe command updated ↔ Handled recipe command := by
  cases command with
  | renameInput former latter =>
      exact @renamed_iff recipe .input former latter updated decoded.1 accepted
  | renameArtifact former latter =>
      exact @renamed_iff recipe .artifact former latter updated decoded.1 accepted
  | renameArtifactGroup former latter =>
      exact @renamed_iff recipe .group former latter updated decoded.1 accepted
  | deleteInput id => exact deleteInput_iff accepted
  | deleteArtifact id => exact deleteArtifact_iff accepted
  | deleteArtifactGroup id => exact deleteArtifactGroup_iff accepted
  | deleteStep id => exact deleteStep_iff accepted

def installApp : Step where
  id := "install"
  typeName := "install_apk"
  name := "Install"
  progressNote := none
  userToggleable := false
  appRef := some "sample"
  dependencies := []
  constraints := ⟨[], []⟩
  skipIf := []
  params := .ofList [("app", .ref "artifacts.app.local_path")]
  verify := []

def boundRecipe : Recipe where
  id := "app.sample"
  recipeDependencies := []
  inputs := .ofList [("apk", ⟨"file", true, false, .null, ⟨true, [], none, []⟩, []⟩)]
  config := none
  artifacts := .ofList [("app", .appArtifact ⟨"sample", "apk", some "apk", "default"⟩)]
  artifactGroups := .ofList [("all", ["app"])]
  steps := [installApp]

theorem consistent_iff_sample :
    ∃ updated, updatedRecipe boundRecipe (.renameArtifact "app" "package") = .ok updated ∧
      Consistent boundRecipe (.renameArtifact "app" "package") updated ∧
      updated.artifactGroups.values = [["package"]] := by
  have decoded : RecipeCommand.Decoded (.renameArtifact "app" "package") :=
    ⟨by decide, by decide⟩
  have trimmed : trim "app" = "app" ∧ trim "package" = "package" := by decide
  have handled : Handled boundRecipe (.renameArtifact "app" "package") := by
    refine .inr ⟨trimmed.1, ?_, ?_⟩
    · rw [trimmed.2]
      rintro (⟨step, listed, entry, held, _, mentions⟩ | ⟨_, members, listed, named⟩)
      · obtain rfl := List.mem_singleton.mp listed
        obtain rfl := List.mem_singleton.mp held
        exact absurd mentions (by decide)
      · obtain rfl := List.mem_singleton.mp listed
        exact absurd named (by decide)
    · rintro (⟨step, listed, entry, held, skipped, _⟩ | ⟨_, other, _⟩)
      · obtain rfl := List.mem_singleton.mp listed
        obtain rfl := List.mem_singleton.mp held
        exact absurd skipped (by decide)
      · cases other
  exact ⟨_, rfl, (consistent_iff decoded rfl).mpr handled, rfl⟩

theorem not_consistent_renameInput : ¬ ∀ (recipe : Recipe) (command : RecipeCommand),
    command.Decoded → ∀ updated, updatedRecipe recipe command = .ok updated →
      Consistent recipe command updated := by
  intro every
  have decoded : RecipeCommand.Decoded (.renameInput "apk" "package") := ⟨by decide, by decide⟩
  have whole := every boundRecipe (.renameInput "apk" "package") decoded _ rfl
  have follow : (references _).map (fun entry => entry.2.target) = _ :=
    (congrArg (List.map fun entry => entry.2.target) whole.references)
  exact absurd follow (by decide)

end

end EmuChef.Editor
