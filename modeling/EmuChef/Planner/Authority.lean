import EmuChef.Planner.Bindings
import EmuChef.Planner.Permissions

/-! The authority of App Definitions over the artifacts and steps of Recipes. -/

namespace EmuChef.Planner

open Authored

/-- The checks that this development does not model: the validation of an App Definition, and
whether a remote release policy of a provider, base URL, repository, artifact kind, asset pattern
and inversion is supported. -/
structure AuthorityChecks where
  validateAppDefinition : AppDefinition → List AppDiagnostic
  remoteReleasePolicyHolds : String → String → String → String → Option String → Bool → Bool

def appAuthorityError (code message : String) (details : List (String × Json)) : PlannerMessage :=
  ⟨code, message, .object details⟩

section

variable (checks : AuthorityChecks)

inductive ExecutionArtifactSource where
  | directUrl (url : String) (sha256 : Option String)
  | remoteRelease (provider serviceOrigin repository : String) (includePrereleases : Bool)
      (assetPattern : Option String) (invertAssetPattern : Bool)
  | localInput (inputId : String)
  deriving DecidableEq

def providerName : ReleaseProvider → String
  | .github => "github"
  | .gitlab => "gitlab"
  | .forgejo => "forgejo"

def artifactKindName : AppArtifactKind → String
  | .apk => "apk"
  | .file => "file"

/-- The source of an artifact; there is none when the user provides it, and the outer `none` is an
unsupported release policy. -/
def executionArtifactSource (artifact : AppArtifact) : Option (Option ExecutionArtifactSource) :=
  match artifact.source with
  | .userProvided => some none
  | .directUrl url sha256 => some (some (.directUrl url sha256))
  | .latestRelease provider baseUrl repository assetPattern invertAssetPattern prerelease =>
      if checks.remoteReleasePolicyHolds (providerName provider) baseUrl repository
          (artifactKindName artifact.kind) assetPattern (invertAssetPattern = some true) then
        some (some (.remoteRelease (providerName provider) baseUrl repository prerelease assetPattern
          (invertAssetPattern = some true)))
      else none

def executionAppArtifactProjection (reference : AppArtifactReference) (recipeId : String)
    (apps : OrderedMap String AppDefinition) : Option ExecutionArtifactSource :=
  (apps.get? reference.appRef).bind fun app =>
    (app.artifacts.get? reference.artifact).bind fun artifact =>
      (executionArtifactSource checks artifact).bind fun source =>
        source.or (reference.input.map fun inputId =>
          .localInput (makeExecutionInputId recipeId inputId))

end

section

variable (checks : AuthorityChecks) (apps : OrderedMap String AppDefinition)

def appArtifactReferences (recipe : Authored.Recipe) : List (String × AppArtifactReference) :=
  recipe.artifacts.entries.filterMap fun entry =>
    match entry.2 with
    | .appArtifact reference => some (entry.1, reference)
    | .remoteFile _ _ => none

def expandedRecipes (recipes : OrderedMap String Authored.Recipe) (expandedRecipeRefs : List String) :
    List (String × Authored.Recipe) :=
  expandedRecipeRefs.filterMap fun recipeId => (recipes.get? recipeId).map (recipeId, ·)

def referencedAppIds (expanded : List (String × Authored.Recipe)) (steps : List PlannedStep) :
    List String :=
  firstOccurrences (expanded.flatMap (fun entry =>
      (appArtifactReferences entry.2).map fun found => found.2.appRef) ++
    steps.filterMap fun planned => planned.step.appRef)

def diagnosticToJson (diagnostic : AppDiagnostic) : Json :=
  .object [("code", .string diagnostic.code), ("field", .string diagnostic.field)]

def appDefinitionErrors (appId : String) : List PlannerMessage :=
  match apps.get? appId with
  | none => []
  | some app =>
      let diagnostics := checks.validateAppDefinition app
      if diagnostics = [] then []
      else [appAuthorityError "app_definition_invalid"
        "A referenced App Definition does not satisfy its authored schema."
        [("app_id", .string appId), ("diagnostics", .array (diagnostics.map diagnosticToJson))]]

def artifactError (code message recipeId artifactId : String) : PlannerMessage :=
  appAuthorityError code message
    [("recipe_ref", .string recipeId), ("artifact_id", .string artifactId)]

def artifactAuthorityErrors (recipeId artifactId : String) (reference : AppArtifactReference) :
    List PlannerMessage :=
  if !isValidIdentifier reference.appRef then
    [artifactError "app_reference_invalid"
      "A Recipe App Artifact must use a valid App Definition identifier." recipeId artifactId]
  else
    match apps.get? reference.appRef with
    | none => [artifactError "app_definition_unknown"
        "A recipe artifact refers to an App Definition that is not available." recipeId artifactId]
    | some app =>
        if checks.validateAppDefinition app ≠ [] then []
        else
          match app.artifacts.get? reference.artifact with
          | none => [artifactError "app_artifact_unknown"
              "A recipe artifact refers to an unknown App Definition artifact." recipeId artifactId]
          | some artifact =>
              (if executionArtifactSource checks artifact = none then
                [artifactError "app_artifact_source_unsupported"
                  ("The referenced App Definition artifact source is not supported by this " ++
                    "execution path.") recipeId artifactId] else []) ++
              (if reference.cache ≠ "default" ∧ reference.cache ≠ "none" then
                [artifactError "app_artifact_cache_unsupported"
                  "A Recipe App Artifact cache policy must be 'default' or 'none'." recipeId
                  artifactId] else [])

def stepError (code message recipeId : String) (step : Authored.Step)
    (more : List (String × Json)) : PlannerMessage :=
  appAuthorityError code message
    ([("recipe_ref", .string recipeId), ("step_id", .string step.id)] ++ more)

def noContextErrors (recipeId : String) (step : Authored.Step) : List PlannerMessage :=
  (if (stepSpecFor step.typeName).any fun spec => spec.appContext = .required then
    [stepError "app_context_required"
      "This App Definition step form requires an app context." recipeId step []] else []) ++
  (if (conditions step).any fun condition => condition.typeName = "package_installed" then
    [stepError "app_condition_context_required"
      "A package_installed condition requires an app context on its step." recipeId step []] else [])

def lifecycleErrors (recipeId : String) (step : Authored.Step) (appRef : String)
    (app : AppDefinition) : List PlannerMessage :=
  if step.typeName = "launch_app" ∨ step.typeName = "force_stop_app" then
    (if step.params.entries ≠ [] then
      [stepError "app_lifecycle_identity_override_forbidden"
        ("An app-context lifecycle step inherits its package and launcher from its App Definition " ++
          "and takes no authored parameters.") recipeId step []] else []) ++
    (if step.typeName = "launch_app" ∧ app.launcherActivity = none then
      [stepError "app_launcher_activity_required"
        "An app-context launch requires a launcher activity in its App Definition." recipeId step
        [("app_ref", .string appRef)]] else [])
  else []

def packageConditionErrors (recipeId : String) (step : Authored.Step) : List PlannerMessage :=
  ((conditions step).filter fun condition =>
      condition.typeName = "package_installed" && condition.params.entries ≠ []).map fun _ =>
    stepError "app_condition_package_parameter_forbidden"
      ("An app-context package_installed condition inherits its package from the step and takes no " ++
        "parameters.") recipeId step []

def installArtifactId (step : Authored.Step) : Option String :=
  match step.params.get? "app" with
  | some (.ref value) =>
      (Split.stripLead artifactsLead value.toList).bind fun body =>
        (Split.stripLead ".local_path".toList.reverse body.reverse).map fun rest =>
          String.ofList rest.reverse
  | _ => none

def duplicatedIdentityFields (step : Authored.Step) : List String :=
  ["expected_package_name", "expected_sha256"].filter fun field => step.params.contains field

def installProvenanceError (recipe : Authored.Recipe) (step : Authored.Step) (message : String) :
    PlannerMessage :=
  stepError "app_install_artifact_provenance_invalid" message recipe.id step []

def localPathMessage : String :=
  "An app-context APK install must use the local path of its declared App Definition artifact."

def ownsApk (app : AppDefinition) (reference : AppArtifactReference) : Bool :=
  reference.appRef = app.id &&
    (app.artifacts.get? reference.artifact).any fun artifact => artifact.kind = .apk

def hasResolverAncestor (recipe : Authored.Recipe) (step : Authored.Step) (artifactId : String)
    (steps : List Authored.Step) : Bool :=
  let stepById := OrderedMap.ofList (steps.map fun step => (step.id, step))
  steps.any fun candidate =>
    candidate.typeName = "resolve_artifacts" && (selectedArtifacts recipe candidate).contains artifactId &&
      hasDependencyAncestor step candidate.id stepById

def validateAppInstallBinding (recipe : Authored.Recipe) (step : Authored.Step) (app : AppDefinition)
    (selectedSteps : List PlannedStep) : List PlannerMessage :=
  let fields := duplicatedIdentityFields step
  if fields ≠ [] then
    [stepError "app_install_authority_override"
      ("An App Definition install must not duplicate package or checksum authority in Recipe " ++
        "parameters.") recipe.id step [("fields", Json.strings fields)]]
  else
    match installArtifactId step with
    | none => [installProvenanceError recipe step localPathMessage]
    | some artifactId =>
        match recipe.artifacts.get? artifactId with
        | some (.appArtifact reference) =>
            if !ownsApk app reference then
              [installProvenanceError recipe step
                ("The APK install step and its artifact must identify the same App Definition and " ++
                  "APK artifact.")]
            else if !hasResolverAncestor recipe step artifactId (stepsOf selectedSteps recipe.id) then
              [stepError "app_install_resolution_dependency_missing"
                ("An app-context APK install must have a dependency ancestor that resolves its App " ++
                  "Definition artifact.") recipe.id step []]
            else []
        | _ => [installProvenanceError recipe step localPathMessage]

def stepContextErrors (recipes : OrderedMap String Authored.Recipe) (selectedSteps : List PlannedStep)
    (recipeId : String) (step : Authored.Step) (appRef : String) (app : AppDefinition) :
    List PlannerMessage :=
  if (stepSpecFor step.typeName).all fun spec => spec.appContext = .none then
    [stepError "app_context_inapplicable"
      "This step type does not support an App Definition context." recipeId step []]
  else
    lifecycleErrors recipeId step appRef app ++
      (packageConditionErrors recipeId step ++
        if step.typeName = "install_apk" then
          (recipes.get? recipeId).toList.flatMap fun recipe =>
            validateAppInstallBinding recipe step app selectedSteps
        else [])

def stepAuthorityErrors (recipes : OrderedMap String Authored.Recipe)
    (selectedSteps : List PlannedStep) (planned : PlannedStep) : List PlannerMessage :=
  match planned.step.appRef with
  | none => noContextErrors planned.recipeId planned.step
  | some appRef =>
      if !isValidIdentifier appRef then
        [stepError "app_reference_invalid" "A step must use a valid App Definition identifier."
          planned.recipeId planned.step []]
      else
        match apps.get? appRef with
        | none => [stepError "app_definition_unknown"
            "A step refers to an App Definition that is not available." planned.recipeId
            planned.step []]
        | some app =>
            if checks.validateAppDefinition app ≠ [] then []
            else stepContextErrors recipes selectedSteps planned.recipeId planned.step appRef app

def validateAppAuthority (recipes : OrderedMap String Authored.Recipe)
    (expandedRecipeRefs : List String) (selectedSteps : List PlannedStep) : List PlannerMessage :=
  let expanded := expandedRecipes recipes expandedRecipeRefs
  (referencedAppIds expanded selectedSteps).flatMap (appDefinitionErrors checks apps) ++
    (expanded.flatMap (fun (recipeId, recipe) =>
        (appArtifactReferences recipe).flatMap fun found =>
          artifactAuthorityErrors checks apps recipeId found.1 found.2) ++
      selectedSteps.flatMap (stepAuthorityErrors checks apps recipes selectedSteps))

end

section

variable (apps : OrderedMap String AppDefinition)

def staticArtifactInputBindingErrors (recipeId : String) (recipe : Authored.Recipe)
    (artifactId : String) (reference : AppArtifactReference) (artifact : AppArtifact) :
    List PlannerMessage :=
  if artifact.source = .userProvided then
    match reference.input with
    | none => [artifactError "app_artifact_input_binding_required"
        "A user-provided App Artifact must bind one Recipe file input." recipeId artifactId]
    | some inputId =>
        match recipe.inputs.get? inputId with
        | none => [artifactError "app_artifact_input_binding_invalid"
            "A user-provided App Artifact must bind an input declared by the same Recipe." recipeId
            artifactId]
        | some declaration =>
            if declaration.typeName ≠ "file" ∨ declaration.multiple then
              [artifactError "app_artifact_input_binding_invalid"
                "A user-provided App Artifact must bind one single-file Recipe input." recipeId
                artifactId]
            else []
  else if reference.input.isSome then
    [artifactError "app_artifact_input_binding_unsupported"
      "Only a user-provided App Artifact can bind a Recipe file input." recipeId artifactId]
  else []

def referencedArtifact (reference : AppArtifactReference) : Option AppArtifact :=
  (apps.get? reference.appRef).bind fun app => app.artifacts.get? reference.artifact

def validateDeclaredArtifactInputBindings (recipe : Authored.Recipe) : List PlannerMessage :=
  (appArtifactReferences recipe).flatMap fun found =>
    (referencedArtifact apps found.2).toList.flatMap
      (staticArtifactInputBindingErrors recipe.id recipe found.1 found.2)

variable (host : Host) (recipes : OrderedMap String Authored.Recipe)
  (inputBindings : OrderedMap String Json) (allowMissingValue : Bool)

def isPresentPath (value : Option Json) : Bool :=
  (value.bind Json.asStr).any fun path => trim path ≠ ""

def missingValueErrors (recipeId : String) (recipe : Authored.Recipe) (artifactId : String)
    (reference : AppArtifactReference) (artifact : AppArtifact) : List PlannerMessage :=
  if artifact.source ≠ .userProvided then []
  else
    match reference.input.bind fun inputId => (recipe.inputs.get? inputId).map (inputId, ·) with
    | none => []
    | some (inputId, declaration) =>
        let value := bindingValue host declaration (makeExecutionInputId recipeId inputId) inputBindings
        if (value = none ∧ allowMissingValue) ∨ isPresentPath value then []
        else [artifactError "app_artifact_input_binding_missing_value"
          "A selected user-provided App Artifact requires a value for its Recipe file input."
          recipeId artifactId]

def selectedArtifactInputErrors (selectedId : String) : List PlannerMessage :=
  match splitQualifiedId selectedId with
  | none => []
  | some (recipeId, artifactId) =>
      match recipes.get? recipeId with
      | none => []
      | some recipe =>
          match recipe.artifacts.get? artifactId with
          | some (.appArtifact reference) =>
              (referencedArtifact apps reference).toList.flatMap fun artifact =>
                let errors := staticArtifactInputBindingErrors recipeId recipe artifactId reference
                  artifact
                if errors ≠ [] then errors
                else missingValueErrors host inputBindings allowMissingValue recipeId recipe artifactId
                  reference artifact
          | _ => []

/-- The selected artifacts are visited in the order of their selection; the source keeps them in a
set without an order. -/
def validateSelectedUserProvidedInputs (selectedArtifactIds : List String) : List PlannerMessage :=
  selectedArtifactIds.flatMap
    (selectedArtifactInputErrors apps host recipes inputBindings allowMissingValue)

end

section

variable (checks : AuthorityChecks)

def validateRecipeAppAuthority (recipe : Authored.Recipe) (appDefinitions : List AppDefinition) :
    List PlannerMessage :=
  let recipes := OrderedMap.ofList [(recipe.id, recipe)]
  let apps := OrderedMap.ofList (appDefinitions.map fun app => (app.id, app))
  let steps := recipe.steps.map fun step => ⟨recipe.id, recipe.id, step⟩
  validateAppAuthority checks apps recipes [recipe.id] steps ++
    (validateDeclaredArtifactInputBindings apps recipe ++
      match resolveUsage checks.validateAppDefinition recipes [recipe.id] apps none with
      | .ok _ => []
      | .error errors => errors)

end

section

variable (apps : OrderedMap String AppDefinition)

def executionAppSnapshots (expanded : List (String × Authored.Recipe)) (steps : List PlannedStep) :
    List ExecutionAppSnapshot :=
  (referencedAppIds expanded steps).filterMap fun appId =>
    (apps.get? appId).map fun app => ⟨app.id, app.packageId⟩

def executionCondition (condition : Authored.StepCondition) (appRef : Option String) :
    ExecutionStepCondition :=
  { typeName := condition.typeName
    appId := if condition.typeName = "package_installed" ∧ condition.params.entries = [] then
        (appRef.bind apps.get?).map AppDefinition.id
      else none
    params := condition.params }

end

end EmuChef.Planner
