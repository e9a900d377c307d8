import EmuChef.Editor.References

/-! The renaming commands of the Recipe editor and the references of the Recipe. -/

namespace EmuChef.Editor

open Authored (Recipe Step RecipeArtifact)
open Planner (ParamValue parseReference trim)

inductive Renamable where
  | input
  | artifact
  | group
  deriving DecidableEq

def Renamable.identity : Renamable → String → Identity
  | input => .input
  | artifact => .artifact
  | group => .group

def Renamable.command : Renamable → String → String → RecipeCommand
  | input => .renameInput
  | artifact => .renameArtifact
  | group => .renameArtifactGroup

def Renamable.refKind : Renamable → Option RefTargetKind
  | input => some .input
  | artifact => some .artifact
  | group => none

def Renamable.selection : Renamable → Option String
  | input => none
  | artifact => some "artifacts"
  | group => some "artifact_groups"

def Renamable.rewrite (kind : Renamable) (former latter name : String) :
    ParamValue → Option ParamValue
  | .ref refValue => kind.refKind.bind fun refKind =>
      (rewriteRef refValue refKind former latter).map .ref
  | .literal value =>
      if kind.selection = some name then
        (rewriteStringSequenceValue value former latter).map .literal
      else none
  | .appTarget _ => none

def Renamable.rewritten (kind : Renamable) (former latter name : String) (value : ParamValue) :
    ParamValue := (kind.rewrite former latter name value).getD value

section

variable {items : Json} {former latter : String}

def replaceItem (former latter : String) (item : Json) : Json :=
  if item.asStr = some former then .string latter else item

theorem rewriteStringSequenceValue_getD (held : List Json) :
    (rewriteStringSequenceValue (.array held) former latter).getD (.array held) =
      .array (held.map (replaceItem former latter)) := by
  rw [rewriteStringSequenceValue]
  split
  next _ => rfl
  next absent =>
    simp only [List.any_eq_true, decide_eq_true_eq, not_exists, not_and] at absent
    rw [Option.getD_none, Json.array.injEq]
    exact ((List.map_congr_left fun item member => if_neg (absent item member)).trans
      (List.map_id held)).symm

theorem replaceItem_self (item : Json) : replaceItem former former item = item := by
  rw [replaceItem]
  split
  next same => exact (Json.asStr_eq_some.mp same).symm
  next => rfl

theorem asStr_replaceItem (item : Json) : (replaceItem former latter item).asStr =
    item.asStr.map fun id => if id = former then latter else id := by
  rw [replaceItem]
  split
  next same => rw [same, Option.map_some, if_pos rfl, Json.asStr]
  next other =>
    cases text : item.asStr with
    | none => rfl
    | some id => rw [Option.map_some, if_neg fun same => other (by rw [text, same])]

theorem replaceItem_back (other : former ≠ latter) (item : Json) :
    replaceItem latter former (replaceItem former latter item) = item ↔
      item.asStr ≠ some latter := by
  by_cases same : item.asStr = some former
  · have held := Json.asStr_eq_some.mp same
    simp [replaceItem, held, Json.asStr, other]
  · rw [replaceItem, replaceItem, if_neg same]
    split
    next held =>
      refine iff_of_false (fun restored => same ?_) (fun absent => absent held)
      rw [← restored, Json.asStr]
    next held => simp [held]

theorem rewriteStringSequenceValue_self :
    (rewriteStringSequenceValue items former former).getD items = items := by
  cases items with
  | array held =>
      rw [rewriteStringSequenceValue_getD, Json.array.injEq]
      exact (List.map_congr_left fun item _ => replaceItem_self item).trans (List.map_id held)
  | _ => rfl

theorem rewriteStringSequenceValue_back (other : former ≠ latter) :
    (rewriteStringSequenceValue ((rewriteStringSequenceValue items former latter).getD items)
        latter former).getD ((rewriteStringSequenceValue items former latter).getD items) = items ↔
      rewriteStringSequenceValue items latter latter = none := by
  cases items with
  | array held =>
      rw [rewriteStringSequenceValue_getD, rewriteStringSequenceValue_getD, Json.array.injEq,
        List.map_map]
      have single : held.map (replaceItem latter former ∘ replaceItem former latter) = held ↔
          ∀ item ∈ held, item.asStr ≠ some latter := by
        conv_lhs => rhs; rw [← List.map_id held]
        rw [List.map_inj_left]
        exact forall₂_congr fun item _ => replaceItem_back other item
      rw [single, rewriteStringSequenceValue]
      simp
  | _ => simp [rewriteStringSequenceValue]

end

section

variable {refKind : RefTargetKind} {refValue written former latter field another : String}

def spell : RefTargetKind → String → String → String
  | .artifact, id, field => "artifacts." ++ id ++ "." ++ field
  | _, id, _ => "inputs." ++ id

def Plain : RefTargetKind → String → Prop
  | .artifact, field => '.' ∉ field.toList
  | _, field => field = ""

theorem rewriteRef_eq_some (named : refKind ≠ .step) :
    rewriteRef refValue refKind former latter = some written ↔
      ∃ field, Plain refKind field ∧ refValue = spell refKind former field ∧
        written = spell refKind latter field := by
  cases refKind with
  | input => simp [rewriteRef_input, Plain, spell]
  | artifact => exact rewriteRef_artifact
  | step => exact absurd rfl named

theorem spell_inj (plain : Plain refKind field) (other : Plain refKind another)
    (same : spell refKind former field = spell refKind latter another) :
    former = latter ∧ field = another := by
  cases refKind with
  | artifact =>
      rw [spell, spell, ← String.toList_inj, toList_artifact, toList_artifact,
        List.append_cancel_left_eq] at same
      have first : Split.rsplitOnce '.' (former.toList ++ '.' :: field.toList) =
          some (former.toList, field.toList) := Split.rsplitOnce_eq_some.mpr ⟨rfl, plain⟩
      have second : Split.rsplitOnce '.' (former.toList ++ '.' :: field.toList) =
          some (latter.toList, another.toList) := Split.rsplitOnce_eq_some.mpr ⟨same, other⟩
      have parts := first.symm.trans second
      simpa [String.toList_inj] using parts
  | input | step =>
      refine ⟨?_, plain.trans other.symm⟩
      simpa [spell, ← String.toList_inj, Planner.toList_inputs] using same

theorem rewriteRef_self (named : refKind ≠ .step) :
    (rewriteRef refValue refKind former former).getD refValue = refValue := by
  cases found : rewriteRef refValue refKind former former with
  | none => rfl
  | some written =>
      obtain ⟨field, _, spelled, rfl⟩ := (rewriteRef_eq_some named).mp found
      exact spelled.symm

theorem rewriteRef_back (named : refKind ≠ .step) (other : former ≠ latter) :
    (rewriteRef ((rewriteRef refValue refKind former latter).getD refValue) refKind latter
        former).getD ((rewriteRef refValue refKind former latter).getD refValue) = refValue ↔
      rewriteRef refValue refKind latter latter = none := by
  cases found : rewriteRef refValue refKind former latter with
  | some written =>
      obtain ⟨field, plain, rfl, rfl⟩ := (rewriteRef_eq_some named).mp found
      have back : rewriteRef (spell refKind latter field) refKind latter former =
          some (spell refKind former field) := (rewriteRef_eq_some named).mpr ⟨field, plain, rfl, rfl⟩
      rw [Option.getD_some, back, Option.getD_some]
      refine iff_of_true rfl (Option.eq_none_iff_forall_ne_some.mpr fun held found => ?_)
      obtain ⟨another, plain', same, _⟩ := (rewriteRef_eq_some named).mp found
      exact other (spell_inj plain plain' same).1
  | none =>
      rw [Option.getD_none]
      cases held : rewriteRef refValue refKind latter latter with
      | none =>
          have absent : rewriteRef refValue refKind latter former = none := by
            refine Option.eq_none_iff_forall_ne_some.mpr fun written found => ?_
            obtain ⟨field, plain, spelled, _⟩ := (rewriteRef_eq_some named).mp found
            have here : rewriteRef refValue refKind latter latter = some refValue :=
              (rewriteRef_eq_some named).mpr ⟨field, plain, spelled, spelled⟩
            exact Option.some_ne_none _ (here.symm.trans held)
          simp [absent]
      | some written =>
          obtain ⟨field, plain, rfl, _⟩ := (rewriteRef_eq_some named).mp held
          have back : rewriteRef (spell refKind latter field) refKind latter former =
              some (spell refKind former field) :=
            (rewriteRef_eq_some named).mpr ⟨field, plain, rfl, rfl⟩
          rw [back, Option.getD_some]
          exact iff_of_false (fun same => other (spell_inj plain plain same).1) (by simp)

end

section

variable {kind : Renamable} {former latter name : String} {value : ParamValue}

theorem Renamable.refKind_ne_step {refKind : RefTargetKind} (held : kind.refKind = some refKind) :
    refKind ≠ .step := by
  cases kind with
  | input => cases held; decide
  | artifact => cases held; decide
  | group => cases held

theorem Renamable.rewritten_self : kind.rewritten former former name value = value := by
  cases value with
  | ref refValue =>
      cases held : kind.refKind with
      | none => simp [rewritten, rewrite, held]
      | some refKind =>
          have same := @rewriteRef_self refKind refValue former (refKind_ne_step held)
          cases found : rewriteRef refValue refKind former former with
          | none => simp [rewritten, rewrite, held, found]
          | some written => simpa [rewritten, rewrite, held, found] using same
  | literal items =>
      have same := @rewriteStringSequenceValue_self items former
      cases found : rewriteStringSequenceValue items former former with
      | none => simp [rewritten, rewrite, found]
      | some written =>
          by_cases selects : kind.selection = some name
          · simpa [rewritten, rewrite, selects, found] using same
          · simp [rewritten, rewrite, selects]
  | appTarget targetId => rfl

theorem Renamable.rewritten_ref {refKind : RefTargetKind} (held : kind.refKind = some refKind)
    (refValue : String) : kind.rewritten former latter name (.ref refValue) =
      .ref ((rewriteRef refValue refKind former latter).getD refValue) := by
  cases found : rewriteRef refValue refKind former latter with
  | none => simp [rewritten, rewrite, held, found]
  | some written => simp [rewritten, rewrite, held, found]

theorem Renamable.rewritten_literal (selects : kind.selection = some name) (items : Json) :
    kind.rewritten former latter name (.literal items) =
      .literal ((rewriteStringSequenceValue items former latter).getD items) := by
  cases found : rewriteStringSequenceValue items former latter with
  | none => simp [rewritten, rewrite, selects, found]
  | some written => simp [rewritten, rewrite, selects, found]

theorem Renamable.rewritten_back (other : former ≠ latter) :
    kind.rewritten latter former name (kind.rewritten former latter name value) = value ↔
      kind.rewrite latter latter name value = none := by
  cases value with
  | ref refValue =>
      cases held : kind.refKind with
      | none => simp [rewritten, rewrite, held]
      | some refKind =>
          rw [rewritten_ref held, rewritten_ref held, ParamValue.ref.injEq,
            rewriteRef_back (refKind_ne_step held) other, rewrite, held, Option.bind_some,
            Option.map_eq_none_iff]
  | literal items =>
      by_cases selects : kind.selection = some name
      · rw [rewritten_literal selects, rewritten_literal selects, ParamValue.literal.injEq,
          rewriteStringSequenceValue_back other, rewrite, if_pos selects, Option.map_eq_none_iff]
      · simp [rewritten, rewrite, selects]
  | appTarget targetId => exact iff_of_true rfl rfl

theorem Reference.rename_of_ne {reference : Reference} {before after : Identity}
    (other : reference.target ≠ before) : reference.rename before after = reference := by
  rw [rename, Identity.rename, if_neg other]

theorem map_rename_of_ne {references : List Reference} {before after : Identity}
    (other : ∀ reference ∈ references, reference.target ≠ before) :
    references.map (·.rename before after) = references :=
  (List.map_congr_left fun reference member => Reference.rename_of_ne (other reference member)).trans
    (List.map_id references)

theorem Renamable.target_of_parse (parsed : Planner.RuntimeRef) {refValue : String}
    (found : parseReference refValue = some parsed)
    (target : (ofRuntimeRef parsed).target = kind.identity former) :
    ∃ refKind, kind.refKind = some refKind ∧
      (rewriteRef refValue refKind former latter).isSome := by
  rcases spelling found with ⟨id, rfl, rfl⟩ | ⟨id, field, rfl, clean, rfl⟩ | ⟨id, rfl, _⟩ |
    ⟨id, field, rfl, _⟩
  · cases kind with
    | input =>
        cases target
        exact ⟨.input, rfl, by rw [rewriteRef_input.mpr ⟨rfl, rfl⟩, Option.isSome_some]⟩
    | artifact => cases target
    | group => cases target
  · cases kind with
    | artifact =>
        cases target
        exact ⟨.artifact, rfl, by
          rw [rewriteRef_artifact.mpr ⟨field, clean, rfl, rfl⟩, Option.isSome_some]⟩
    | input => cases target
    | group => cases target
  · cases kind with
    | input | artifact | group => cases target
  · cases kind with
    | input | artifact | group => cases target

theorem Renamable.ref_references (before : former ≠ "") (after : latter ≠ "") (refValue : String) :
    paramReferences name (kind.rewritten former latter name (.ref refValue)) =
      (paramReferences name (.ref refValue)).map
        (·.rename (kind.identity former) (kind.identity latter)) := by
  by_cases touched : ∃ refKind, kind.refKind = some refKind ∧
      (rewriteRef refValue refKind former latter).isSome
  · obtain ⟨refKind, held, found⟩ := touched
    obtain ⟨written, found⟩ := Option.isSome_iff_exists.mp found
    rw [rewritten_ref held, found, Option.getD_some]
    cases kind with
    | input =>
        cases held
        obtain ⟨rfl, rfl⟩ := rewriteRef_input.mp found
        simp [paramReferences, parseReference_input before, parseReference_input after,
          ofRuntimeRef, Reference.rename, Identity.rename, identity]
    | artifact =>
        cases held
        obtain ⟨field, clean, rfl, rfl⟩ := rewriteRef_artifact.mp found
        by_cases named : field = ""
        · simp only [paramReferences, named, parseReference_bare, Option.map_none,
            Option.toList_none, List.map_nil]
        · simp [paramReferences, parseReference_artifact before named clean,
            parseReference_artifact after named clean, ofRuntimeRef, Reference.rename,
            Identity.rename, identity]
    | group => cases held
  · have kept : kind.rewritten former latter name (.ref refValue) = .ref refValue := by
      cases held : kind.refKind with
      | none => simp [rewritten, rewrite, held]
      | some refKind =>
          rw [rewritten_ref held]
          cases found : rewriteRef refValue refKind former latter with
          | none => rfl
          | some written => exact absurd ⟨refKind, held, by rw [found, Option.isSome_some]⟩ touched
    rw [kept, map_rename_of_ne]
    intro reference member target
    simp only [paramReferences, Option.mem_toList, Option.map_eq_some_iff] at member
    obtain ⟨parsed, found, rfl⟩ := member
    exact touched (target_of_parse parsed found target)

theorem selected_rename (identity : String → Identity) (former latter : String)
    (distinct : Function.Injective identity) (items : Json) :
    selected identity ((rewriteStringSequenceValue items former latter).getD items) =
      (selected identity items).map (·.rename (identity former) (identity latter)) := by
  cases items with
  | array held =>
      rw [rewriteStringSequenceValue_getD, selected, selected, List.filterMap_map, List.map_map]
      have texts : held.filterMap (Json.asStr ∘ replaceItem former latter) =
          (held.filterMap Json.asStr).map fun id => if id = former then latter else id := by
        rw [List.map_filterMap]
        exact List.filterMap_congr fun item _ => asStr_replaceItem item
      rw [texts, List.map_map]
      refine List.map_congr_left fun id _ => ?_
      by_cases same : id = former
      · simp [same, Reference.rename, Identity.rename]
      · have apart : identity id ≠ identity former := fun met => same (distinct met)
        simp [same, Reference.rename, Identity.rename, apart]
  | _ => rfl

theorem selected_target {identity : String → Identity} {items : Json} {reference : Reference}
    (member : reference ∈ selected identity items) : ∃ id, reference.target = identity id := by
  cases items with
  | array held =>
      obtain ⟨id, _, rfl⟩ := List.mem_map.mp member
      exact ⟨id, rfl⟩
  | _ => cases member

theorem Renamable.paramReferences_rewritten (before : former ≠ "") (after : latter ≠ "") :
    paramReferences name (kind.rewritten former latter name value) =
      (paramReferences name value).map
        (·.rename (kind.identity former) (kind.identity latter)) := by
  cases value with
  | ref refValue => exact ref_references before after refValue
  | appTarget targetId => rfl
  | literal items =>
      by_cases selects : kind.selection = some name
      · rw [rewritten_literal selects]
        cases kind with
        | input => cases selects
        | artifact =>
            cases selects
            exact selected_rename .artifact former latter (fun _ _ => Identity.artifact.inj) items
        | group =>
            cases selects
            exact selected_rename .group former latter (fun _ _ => Identity.group.inj) items
      · have kept : kind.rewritten former latter name (.literal items) = .literal items := by
          simp [rewritten, rewrite, selects]
        rw [kept, map_rename_of_ne]
        intro reference member target
        rw [paramReferences] at member
        split_ifs at member with artifacts groups
        · obtain ⟨id, held⟩ := selected_target member
          cases kind with
          | artifact => exact selects (by rw [selection, artifacts])
          | input | group => cases held.symm.trans target
        · obtain ⟨id, held⟩ := selected_target member
          cases kind with
          | group => exact selects (by rw [selection, groups])
          | input | artifact => cases held.symm.trans target
        · cases member

end

section

variable {kind : Renamable} {former latter : String} {step : Step}

def Renamable.renameStep (kind : Renamable) (former latter : String) (step : Step) : Step :=
  { step with
    params := step.params.mapValues fun name value =>
      if isSupportedStepParam step name then kind.rewritten former latter name value else value }

theorem rewrittenParam_eq {refKind : RefTargetKind} {name : String} {value : ParamValue}
    (held : kind.refKind = some refKind) :
    rewrittenParam refKind former latter name value = kind.rewrite former latter name value := by
  cases kind with
  | input =>
      cases held
      cases value with
      | literal items => simp [rewrittenParam, Renamable.rewrite, Renamable.selection]
      | _ => rfl
  | artifact =>
      cases held
      cases value with
      | literal items => simp [rewrittenParam, Renamable.rewrite, Renamable.selection, eq_comm]
      | _ => rfl
  | group => cases held

theorem params_rewriteStepRefs {refKind : RefTargetKind} (held : kind.refKind = some refKind) :
    (rewriteStepRefs step refKind former latter).params =
      (kind.renameStep former latter step).params := by
  have revised := @OrderedMap.revise_eq_mapValues _ _ step.params _
    (fun name value =>
      if isSupportedStepParam step name then kind.rewritten former latter name value else value)
    fun _ _ => rfl
  have loop : (rewriteStepRefs step refKind former latter).params =
      step.params.entries.foldl (rewriteStepParam step refKind former latter) step.params := by
    cases refKind with
    | input | artifact | step => rfl
  refine loop.trans ((OrderedMap.foldl_revise fun params name value found => ?_).trans revised)
  rw [rewriteStepParam, rewrittenParam_eq held, Renamable.rewritten]
  split_ifs with supported
  · cases kind.rewrite former latter name value with
    | some written => rfl
    | none => exact (OrderedMap.insert_eq_self found).symm
  · exact (OrderedMap.insert_eq_self found).symm

theorem rewriteStepRefs_eq {refKind : RefTargetKind} (held : kind.refKind = some refKind) :
    rewriteStepRefs step refKind former latter = kind.renameStep former latter step := by
  have params := @params_rewriteStepRefs kind former latter step refKind held
  cases kind with
  | input =>
      cases held
      exact congrArg (fun params => { step with params }) params
  | artifact =>
      cases held
      exact congrArg (fun params => { step with params }) params
  | group => cases held

theorem rewriteArtifactGroupSelection_eq :
    rewriteArtifactGroupSelection step former latter =
      Renamable.group.renameStep former latter step := by
  have elsewhere (name : String) (value : ParamValue) (other : name ≠ "artifact_groups") :
      Renamable.group.rewritten former latter name value = value := by
    cases value with
    | literal items => simp [Renamable.rewritten, Renamable.rewrite, Renamable.selection, other.symm]
    | _ => rfl
  have whole (same : ∀ value, step.params.get? "artifact_groups" = some value →
      isSupportedStepParam step "artifact_groups" = true →
        Renamable.group.rewritten former latter "artifact_groups" value = value) :
      step = Renamable.group.renameStep former latter step := by
    have kept : (step.params.mapValues fun name value =>
        if isSupportedStepParam step name then
          Renamable.group.rewritten former latter name value
        else value) = step.params := by
      refine OrderedMap.mapValues_eq_self fun entry member => ?_
      split_ifs with supported
      · by_cases named : entry.1 = "artifact_groups"
        · have found : step.params.get? "artifact_groups" = some entry.2 :=
            OrderedMap.get?_eq_some.mpr (named ▸ member)
          rw [named] at supported ⊢
          exact same entry.2 found supported
        · exact elsewhere _ _ named
      · rfl
    rw [Renamable.renameStep, kept]
  rw [rewriteArtifactGroupSelection]
  split_ifs with supported
  · cases found : step.params.get? "artifact_groups" with
    | none => exact whole (by simp [found])
    | some value =>
        cases value with
        | literal items =>
            have selects : Renamable.group.selection = some "artifact_groups" := rfl
            cases rewritten : rewriteStringSequenceValue items former latter with
            | none =>
                simp only [rewritten]
                refine whole fun value same _ => ?_
                cases found.symm.trans same
                rw [Renamable.rewritten_literal selects, rewritten, Option.getD_none]
            | some written =>
                simp only [rewritten]
                refine congrArg (fun params => { step with params }) ?_
                rw [OrderedMap.insert_eq_mapValues found]
                refine OrderedMap.mapValues_congr fun name value member => ?_
                by_cases named : name = "artifact_groups"
                · subst named
                  cases found.symm.trans (OrderedMap.get?_eq_some.mpr member)
                  rw [if_pos rfl, if_pos supported, Renamable.rewritten_literal selects, rewritten,
                    Option.getD_some]
                · rw [if_neg named, elsewhere _ _ named, ite_self]
        | _ =>
            refine whole fun value same _ => ?_
            cases found.symm.trans same
            rfl
  · exact whole fun _ _ held => absurd held supported

theorem Renamable.renameStep_self : kind.renameStep former former step = step := by
  have kept : (step.params.mapValues fun name value =>
      if isSupportedStepParam step name then kind.rewritten former former name value
      else value) = step.params := by
    refine OrderedMap.mapValues_eq_self fun entry _ => ?_
    rw [rewritten_self, ite_self]
  rw [renameStep, kept]

def Renamable.StepMentions (kind : Renamable) (id : String) (step : Step) : Prop :=
  ∃ entry ∈ step.params.entries, isSupportedStepParam step entry.1 = true ∧
    (kind.rewrite id id entry.1 entry.2).isSome = true

/-- A rename is undone by its inverse where the step did not mention the new id. -/
theorem Renamable.renameStep_back (other : former ≠ latter) :
    kind.renameStep latter former (kind.renameStep former latter step) = step ↔
      ¬ kind.StepMentions latter step := by
  have params : kind.renameStep latter former (kind.renameStep former latter step) = step ↔
      (step.params.mapValues fun name value =>
        if isSupportedStepParam step name then
          kind.rewritten latter former name (kind.rewritten former latter name value)
        else value) = step.params := by
    have both : kind.renameStep latter former (kind.renameStep former latter step) =
        { step with
          params := step.params.mapValues fun name value =>
            if isSupportedStepParam step name then
              kind.rewritten latter former name (kind.rewritten former latter name value)
            else value } := by
      refine congrArg (fun params => { step with params }) ?_
      rw [renameStep, OrderedMap.mapValues_mapValues]
      refine OrderedMap.mapValues_congr fun name value _ => ?_
      change (if isSupportedStepParam step name then _ else _) = _
      split_ifs with supported
      · rfl
      · rfl
    rw [both]
    exact ⟨fun same => congrArg Step.params same, fun same => by rw [same]⟩
  rw [params, OrderedMap.mapValues_eq_self_iff, StepMentions]
  simp only [not_exists, not_and]
  refine forall₂_congr fun entry _ => ?_
  split_ifs with supported
  · rw [rewritten_back other]
    simp [supported]
  · simp [supported]

def moved (recipe : Recipe) (before after : Identity) (entry : Place × Reference) :
    Place × Reference :=
  if followed recipe entry.1 then (entry.1, entry.2.rename before after) else entry

/-- Renaming in a step moves its references to the former identity, and no other. -/
theorem Renamable.stepReferences_renameStep {recipe : Recipe} {index : Nat} (before : former ≠ "")
    (after : latter ≠ "") (found : recipe.steps[index]? = some step) :
    stepReferences index (kind.renameStep former latter step) =
      (stepReferences index step).map
        (moved recipe (kind.identity former) (kind.identity latter)) := by
  have steps (id : String) : (Reference.mk (.step id) none).rename (kind.identity former)
      (kind.identity latter) = ⟨.step id, none⟩ := by
    cases kind with
    | input | artifact | group => rfl
  have params : ((kind.renameStep former latter step).params.entries.flatMap fun entry =>
        (paramReferences entry.1 entry.2).map fun held => (Place.param index entry.1, held)) =
      (step.params.entries.flatMap fun entry =>
        (paramReferences entry.1 entry.2).map fun held => (Place.param index entry.1, held)).map
          (moved recipe (kind.identity former) (kind.identity latter)) := by
    change (List.map _ step.params.entries).flatMap _ = _
    rw [List.flatMap_map, List.map_flatMap]
    refine List.flatMap_congr fun entry _ => ?_
    have follows : followed recipe (.param index entry.1) = isSupportedStepParam step entry.1 := by
      simp [followed, found]
    dsimp only
    rw [List.map_map]
    by_cases supported : isSupportedStepParam step entry.1 = true
    · rw [if_pos supported, paramReferences_rewritten before after, List.map_map]
      exact List.map_congr_left fun held _ => by simp [moved, follows, supported]
    · rw [if_neg supported]
      exact List.map_congr_left fun held _ => by simp [moved, follows, supported]
  rw [stepReferences, params, stepReferences, List.map_append, List.map_append]
  simp only [renameStep, List.map_map, Function.comp_def, moved, followed, if_true, steps]

end

end EmuChef.Editor
