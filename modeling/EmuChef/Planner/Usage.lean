import EmuChef.Authored.Identifier
import EmuChef.Lib.TextPath
import EmuChef.Planner.StepParams

/-! What each authored step uses of its App: targets, capabilities, and copy destinations, of which
no two may overlap. -/

namespace EmuChef.Planner

open Authored

structure ResolvedTarget where
  path : String
  kind : AppTargetKind
  capability : Option String
  deriving DecidableEq

def targetLocation (packageId path : String) : AppTargetLocation → String × Option String
  | .appData => ("/data/user/0/" ++ packageId ++ "/" ++ path, some "app_data_write")
  | .externalAppData =>
      ("/storage/emulated/0/Android/data/" ++ packageId ++ "/" ++ path, some "app_data_write")
  | .sharedStorage => ("/storage/emulated/0/" ++ path, some "shared_storage_write")
  | .absoluteDevicePath => (path, none)

def resolveTarget (app : AppDefinition) (targetId : String) : Option ResolvedTarget :=
  (app.targets.get? targetId).bind fun target =>
    if isValidTargetPath target.location target.path then
      let place := targetLocation app.packageId target.path target.location
      some ⟨place.1, target.kind, place.2⟩
    else none

structure AppDiagnostic where
  code : String
  field : String
  deriving DecidableEq

def usageMessage (code recipeId stepId : String) : PlannerMessage :=
  { code := code
    message := "App-owned target use in step '" ++ stepId ++ "' is invalid (" ++ code ++ ")."
    details := .object [("recipe_ref", .string recipeId), ("step_id", .string stepId)] }

def addCapability (capabilities : List String) (capability : Option String) : List String :=
  match capability with
  | some name => if name ∈ capabilities then capabilities else capabilities ++ [name]
  | none => capabilities

def storageAliases : List (List Char) := ["/sdcard".toList, "/storage/self/primary".toList]

def sharedStorageRoot : List Char := "/storage/emulated/0".toList

def belowAlias (path : List Char) (lead : List Char) : Option (List Char) :=
  match Split.stripLead lead path with
  | some [] => some []
  | some ('/' :: rest) => some ('/' :: rest)
  | _ => none

def canonicalSharedStorageAlias (path : String) : String :=
  match storageAliases.findSome? (belowAlias path.toList) with
  | some rest => String.ofList (sharedStorageRoot ++ rest)
  | none => path

def devicePathsOverlap (first second : String) : Bool :=
  let first := TextPath.components (canonicalSharedStorageAlias first)
  let second := TextPath.components (canonicalSharedStorageAlias second)
  second.isPrefixOf first || first.isPrefixOf second

structure DestinationTarget where
  recipeId : String
  targetId : String
  path : String
  deriving DecidableEq

def destinationTargetOverlapMessage (first second : DestinationTarget) : PlannerMessage :=
  { code := "app_target_destination_overlap"
    message := "Selected destination targets '" ++ first.recipeId ++ "/" ++ first.targetId ++
      "' and '" ++ second.recipeId ++ "/" ++ second.targetId ++ "' overlap."
    details := .object [("first_recipe_ref", .string first.recipeId),
      ("first_target_id", .string first.targetId),
      ("second_recipe_ref", .string second.recipeId),
      ("second_target_id", .string second.targetId)] }

def destinationOverlapErrors : List DestinationTarget → List PlannerMessage
  | [] => []
  | first :: rest =>
      (rest.filter fun second => devicePathsOverlap first.path second.path).map
          (destinationTargetOverlapMessage first) ++
        destinationOverlapErrors rest

/-- The Apps whose artifacts contribute to a copy source, with the steps visited on the way. -/
def sourceAppRefs (recipe : Authored.Recipe) (fuel : Nat) (visited : List String)
    (reference : String) : List String × List String :=
  match fuel with
  | 0 => ([], visited)
  | fuel + 1 =>
      match parseReference reference with
      | some (.artifactField targetId _) => (artifactApp targetId, visited)
      | some (.stepShorthand targetId) | some (.stepOutput targetId _) =>
          if targetId ∈ visited then ([], visited)
          else
            match findStep recipe targetId with
            | none => ([], targetId :: visited)
            | some producer =>
                let found := (paramRefs producer).foldl (fun found reference =>
                  let more := sourceAppRefs recipe fuel found.2 reference
                  (found.1 ++ more.1, more.2)) ([], targetId :: visited)
                let extracted := if producer.typeName = "extract_artifacts" then
                  (selectedArtifacts recipe producer).flatMap artifactApp else []
                (firstOccurrences (found.1 ++ extracted), found.2)
      | _ => ([], visited)
where
  artifactApp (artifactId : String) : List String :=
    match recipe.artifacts.get? artifactId with
    | some (.appArtifact reference) => [reference.appRef]
    | _ => []

def sourceApps (recipe : Authored.Recipe) (step : Authored.Step) : List String :=
  if step.typeName = "copy_files" then
    match step.params.get? "source" with
    | some (.ref source) => (sourceAppRefs recipe (recipe.steps.length + 1) [] source).1
    | _ => []
  else []

section

variable (validateAppDefinition : AppDefinition → List AppDiagnostic)
  (recipe : Authored.Recipe) (recipeId : String) (step : Authored.Step) (app : Option AppDefinition)
  (bindings : Option (OrderedMap String Json))

def appContextErrors : List PlannerMessage :=
  match step.appRef with
  | none => []
  | some appId =>
      (if (stepSpecFor step.typeName).all fun spec => spec.appContext = .none then
        [usageMessage "app_context_inapplicable" recipeId step.id] else []) ++
      (if !isValidIdentifier appId then [usageMessage "app_reference_invalid" recipeId step.id]
      else
        match app with
        | none => [usageMessage "app_definition_unknown" recipeId step.id]
        | some app =>
            if validateAppDefinition app = [] then []
            else [usageMessage "app_definition_invalid" recipeId step.id])

def resolveStepTarget (targetId : String) : Except PlannerMessage ResolvedTarget :=
  if !isValidIdentifier targetId then .error (usageMessage "app_target_malformed" recipeId step.id)
  else
    match app with
    | none => .error (usageMessage
        (if step.appRef.isSome then "app_definition_unknown" else "app_context_required")
        recipeId step.id)
    | some app =>
        if validateAppDefinition app ≠ [] then
          .error (usageMessage "app_definition_invalid" recipeId step.id)
        else
          match resolveTarget app targetId with
          | some target => .ok target
          | none => .error (usageMessage "app_target_unknown" recipeId step.id)

def copySourceKind : Option String :=
  match step.params.get? "source" with
  | some (.ref source) => (parseReference source).bind (referenceValueType recipe)
  | _ => none

def knownCopyPolicy : Option String :=
  match step.params.get? "copy_policy" with
  | some (.literal value) => value.asStr
  | some (.ref reference) =>
      match parseReference reference with
      | some (.input targetId) =>
          (bindings.bind fun bindings => bindings.get? (recipeId ++ "/" ++ targetId)).bind Json.asStr
      | _ => none
  | _ => some "merge"

def copyPolicyErrors : List PlannerMessage :=
  let policy := knownCopyPolicy recipeId step bindings
  if policy = some "sync" then [usageMessage "app_target_sync_requires_directory" recipeId step.id]
  else if policy = none ∧ bindings.isSome then
    [usageMessage "app_target_copy_policy_unresolved" recipeId step.id]
  else []

def checkCopyKind (target : ResolvedTarget) : List PlannerMessage :=
  if target.kind = .directory then []
  else
    (if copySourceKind recipe step ≠ some "file_path" then
      [usageMessage "app_target_kind_invalid" recipeId step.id] else []) ++
    copyPolicyErrors recipeId step bindings

structure TargetUse where
  errors : List PlannerMessage
  consumed : Bool
  target : Option (String × ResolvedTarget)

def TargetUse.nothing : TargetUse := ⟨[], false, none⟩

def paramTargetUse (name : String) (value : ParamValue) : TargetUse :=
  match value with
  | .appTarget targetId =>
      if step.typeName ≠ "copy_files" ∨ name ≠ "dest" then
        ⟨[usageMessage "app_target_inapplicable" recipeId step.id], false, none⟩
      else
        match resolveStepTarget validateAppDefinition recipeId step app targetId with
        | .ok target =>
            ⟨checkCopyKind recipe recipeId step bindings target, true, some (targetId, target)⟩
        | .error failure => ⟨[failure], true, none⟩
  | .literal value =>
      if (value.field? "app_target").isSome then
        ⟨[usageMessage "app_target_malformed" recipeId step.id], false, none⟩
      else .nothing
  | .ref _ => .nothing

def conditionTargetId (value : Json) : Option String :=
  match value with
  | .object [(_, .string targetId)] => if isValidIdentifier targetId then some targetId else none
  | _ => none

def conditionParamUse (condition : Authored.StepCondition) (name : String) (value : Json) :
    TargetUse :=
  if (value.field? "app_target").isNone then .nothing
  else if name ≠ "path" ∨
      (condition.typeName ≠ "path_exists" ∧ condition.typeName ≠ "file_exists") then
    ⟨[usageMessage "app_target_inapplicable" recipeId step.id], true, none⟩
  else
    match conditionTargetId value with
    | none => ⟨[usageMessage "app_target_malformed" recipeId step.id], true, none⟩
    | some targetId =>
        match resolveStepTarget validateAppDefinition recipeId step app targetId with
        | .ok target =>
            ⟨if condition.typeName = "file_exists" ∧ target.kind ≠ .file then
                [usageMessage "app_target_kind_invalid" recipeId step.id] else [],
              true, some (targetId, target)⟩
        | .error failure => ⟨[failure], true, none⟩

def conditionUses (condition : Authored.StepCondition) : List TargetUse :=
  condition.params.entries.map fun entry =>
    conditionParamUse validateAppDefinition recipeId step app condition entry.1 entry.2

def conditionErrors (condition : Authored.StepCondition) : List PlannerMessage :=
  (if condition.params.contains "app_ref" then
    [usageMessage "app_condition_context_inapplicable" recipeId step.id] else []) ++
  (conditionUses validateAppDefinition recipeId step app condition).flatMap TargetUse.errors

def conditionPath (condition : Authored.StepCondition) : Option String :=
  ((conditionUses validateAppDefinition recipeId step app condition).filterMap
    TargetUse.target).getLast?.map fun found => found.2.path

def paramUses : List TargetUse :=
  step.params.entries.map fun entry =>
    paramTargetUse validateAppDefinition recipe recipeId step app bindings entry.1 entry.2

def conditions : List Authored.StepCondition := step.skipIf ++ step.verify

def stepUses : List TargetUse :=
  paramUses validateAppDefinition recipe recipeId step app bindings ++
    (conditions step).flatMap (conditionUses validateAppDefinition recipeId step app)

def sourceErrors : List PlannerMessage :=
  ((sourceApps recipe step).filter fun source => step.appRef ≠ some source).map fun _ =>
    usageMessage "app_source_provenance_mismatch" recipeId step.id

def unusedContextErrors : List PlannerMessage :=
  if step.typeName = "copy_files" ∧ step.appRef.isSome ∧ sourceApps recipe step = [] ∧
      !(stepUses validateAppDefinition recipe recipeId step app bindings).any TargetUse.consumed then
    [usageMessage "app_context_inapplicable" recipeId step.id]
  else []

def stepUsageErrors : List PlannerMessage :=
  appContextErrors validateAppDefinition recipeId step app ++
    (sourceErrors recipe recipeId step ++
      ((paramUses validateAppDefinition recipe recipeId step app bindings).flatMap TargetUse.errors ++
        ((conditions step).flatMap (conditionErrors validateAppDefinition recipeId step app) ++
          unusedContextErrors validateAppDefinition recipe recipeId step app bindings)))

def resolvedParamTarget : Option (String × ResolvedTarget) :=
  ((paramUses validateAppDefinition recipe recipeId step app bindings).filterMap
    TargetUse.target).getLast?

def resolvedStepUsage : ResolvedStepUsage :=
  let target := resolvedParamTarget validateAppDefinition recipe recipeId step app bindings
  { dest := target.map fun found => found.2.path
    destKind := target.map fun found => found.2.kind
    skipIfPaths := step.skipIf.map (conditionPath validateAppDefinition recipeId step app)
    verifyPaths := step.verify.map (conditionPath validateAppDefinition recipeId step app)
    capabilities := ((stepUses validateAppDefinition recipe recipeId step app bindings).filterMap
        TargetUse.target).foldl (fun capabilities found => addCapability capabilities found.2.capability)
      step.constraints.capabilities }

def stepDestinations : List DestinationTarget :=
  ((paramUses validateAppDefinition recipe recipeId step app bindings).filterMap
    TargetUse.target).map (fun found => ⟨recipeId, found.1, found.2.path⟩) ++
  (if step.typeName = "copy_files" then
    match step.params.get? "dest" with
    | some (.literal (.string path)) => [⟨recipeId, "literal_destination", path⟩]
    | _ => []
  else [])

end

section

variable (validateAppDefinition : AppDefinition → List AppDiagnostic)
  (recipes : OrderedMap String Authored.Recipe) (expandedRecipeRefs : List String)
  (apps : OrderedMap String AppDefinition) (bindings : Option (OrderedMap String Json))

def expandedSteps : List (String × Authored.Recipe × Authored.Step) :=
  expandedRecipeRefs.flatMap fun recipeId =>
    (recipes.get? recipeId).toList.flatMap fun recipe =>
      recipe.steps.map fun step => (recipeId, recipe, step)

def stepApp (step : Authored.Step) : Option AppDefinition := step.appRef.bind apps.get?

def resolveUsage : Except (List PlannerMessage) (OrderedMap String ResolvedStepUsage) :=
  let steps := expandedSteps recipes expandedRecipeRefs
  let errors := steps.flatMap (fun (recipeId, recipe, step) =>
      stepUsageErrors validateAppDefinition recipe recipeId step (stepApp apps step) bindings) ++
    destinationOverlapErrors (steps.flatMap fun (recipeId, recipe, step) =>
      stepDestinations validateAppDefinition recipe recipeId step (stepApp apps step) bindings)
  if errors = [] then
    .ok (.ofList (steps.map fun (recipeId, recipe, step) =>
      (makeExecutionStepId recipeId step.id,
        resolvedStepUsage validateAppDefinition recipe recipeId step (stepApp apps step) bindings)))
  else .error errors

end

end EmuChef.Planner
