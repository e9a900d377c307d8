import EmuChef.Definition.Document
import EmuChef.Lib.Timeline

/-! App Definition drafts with their editing history: commands, undo and redo, saving and
publication. -/

namespace EmuChef.Definition

open Authored (AppPermissionSet AppPermissionSets AppTarget)

inductive PermissionSetName where
  | baseline
  | elevated
  deriving DecidableEq

inductive AppDefinitionCommand where
  | setId (id : String)
  | setName (name : String)
  | setDescription (description : Option String)
  | setCategory (category : Option String)
  | setPackageId (packageId : String)
  | setLauncherActivity (launcherActivity : Option String)
  | addArtifact (artifactId : String) (artifact : AppArtifactV1)
  | replaceArtifact (artifactId : String) (artifact : AppArtifactV1)
  | removeArtifact (artifactId : String)
  | reorderArtifact (artifactId : String) (toIndex : Nat)
  | setPermissionSet (permissionSet : PermissionSetName) (value : Option AppPermissionSet)
  | addTarget (targetId : String) (target : AppTarget)
  | replaceTarget (targetId : String) (target : AppTarget)
  | removeTarget (targetId : String)
  | reorderTarget (targetId : String) (toIndex : Nat)
  | setMetadataEntry (key : String) (value : Json)
  | removeMetadataEntry (key : String)

inductive ValidationScope where
  | none
  | root (field : String)
  | artifact (artifactId : String)
  | target (targetId : String)
  | permissionSet (name : PermissionSetName)
  | metadata (key : String)
  deriving DecidableEq

section

variable {α : Type} (rules : ContentRules)

def addEntry (kind : String) (registry : OrderedMap String α) (id : String) (value : α) :
    Except String (OrderedMap String α) :=
  if registry.contains id then .error (kind ++ " " ++ rules.debugText id ++ " already exists.")
  else .ok (registry.insert id value)

def replaceEntry (kind : String) (registry : OrderedMap String α) (id : String) (value : α) :
    Except String (OrderedMap String α) :=
  if registry.contains id then .ok (registry.insert id value)
  else .error (kind ++ " " ++ rules.debugText id ++ " does not exist and cannot be replaced.")

def removeEntry (kind : String) (registry : OrderedMap String α) (id : String) :
    Except String (OrderedMap String α) :=
  if registry.contains id then .ok (registry.erase id)
  else .error (kind ++ " " ++ rules.debugText id ++ " does not exist.")

def titleCase (value : String) : String := value.capitalize

def reorderRegistry (registry : OrderedMap String α) (id : String) (toIndex : Nat) (kind : String) :
    Except String (OrderedMap String α) :=
  match registry.indexOf? id, registry.get? id with
  | some fromIndex, some value =>
      if toIndex ≥ registry.entries.length then
        .error ("Destination index for " ++ kind ++ " " ++ rules.debugText id ++
          " must be less than " ++ toString registry.entries.length ++ ".")
      else if fromIndex ≠ toIndex then .ok ((registry.erase id).shiftInsert toIndex id value)
      else .ok registry
  | _, _ => .error (titleCase kind ++ " " ++ rules.debugText id ++ " does not exist.")

def changedPermissionSets (sets : AppPermissionSets) (name : PermissionSetName)
    (value : Option AppPermissionSet) : Option AppPermissionSets :=
  let sets := match name with
    | .baseline => { sets with baseline := value }
    | .elevated => { sets with elevated := value }
  if sets.baseline.isNone ∧ sets.elevated.isNone then none else some sets

def applyAppDefinitionCommand (app : AppDefinitionV1) :
    AppDefinitionCommand → Except String (AppDefinitionV1 × ValidationScope)
  | .setId id => .ok ({ app with id := id }, .root "id")
  | .setName name => .ok ({ app with name := name }, .root "name")
  | .setDescription description =>
      .ok ({ app with description := description }, .root "description")
  | .setCategory category => .ok ({ app with category := category }, .root "category")
  | .setPackageId packageId => .ok ({ app with packageId := packageId }, .root "package_id")
  | .setLauncherActivity launcherActivity =>
      .ok ({ app with launcherActivity := launcherActivity }, .root "launcher_activity")
  | .addArtifact artifactId artifact =>
      (addEntry rules "Artifact" app.artifacts artifactId artifact).map fun artifacts =>
        ({ app with artifacts := artifacts }, .artifact artifactId)
  | .replaceArtifact artifactId artifact =>
      (replaceEntry rules "Artifact" app.artifacts artifactId artifact).map fun artifacts =>
        ({ app with artifacts := artifacts }, .artifact artifactId)
  | .removeArtifact artifactId =>
      (removeEntry rules "Artifact" app.artifacts artifactId).map fun artifacts =>
        ({ app with artifacts := artifacts }, .none)
  | .reorderArtifact artifactId toIndex =>
      (reorderRegistry rules app.artifacts artifactId toIndex "artifact").map fun artifacts =>
        ({ app with artifacts := artifacts }, .none)
  | .setPermissionSet permissionSet value =>
      .ok ({ app with
        permissionSets := changedPermissionSets (app.permissionSets.getD ⟨none, none⟩) permissionSet
          value }, .permissionSet permissionSet)
  | .addTarget targetId target =>
      (addEntry rules "Target" app.targets targetId target).map fun targets =>
        ({ app with targets := targets }, .target targetId)
  | .replaceTarget targetId target =>
      (replaceEntry rules "Target" app.targets targetId target).map fun targets =>
        ({ app with targets := targets }, .target targetId)
  | .removeTarget targetId =>
      (removeEntry rules "Target" app.targets targetId).map fun targets =>
        ({ app with targets := targets }, .none)
  | .reorderTarget targetId toIndex =>
      (reorderRegistry rules app.targets targetId toIndex "target").map fun targets =>
        ({ app with targets := targets }, .none)
  | .setMetadataEntry key value =>
      .ok ({ app with metadata := app.metadata.insert key value }, .metadata key)
  | .removeMetadataEntry key =>
      (removeEntry rules "Metadata entry" app.metadata key).map fun metadata =>
        ({ app with metadata := metadata }, .none)

end

section

variable (rules : ContentRules) (app : AppDefinitionV1)

def rejectDiagnostics (concerns : String → Bool) (diagnostics : List AuthoredModelDiagnostic) :
    Except String Unit :=
  match diagnostics.find? fun diagnostic => concerns diagnostic.field with
  | some diagnostic => .error diagnostic.message
  | none => .ok ()

def isEntryField (fieldPrefix field : String) : Bool :=
  field = fieldPrefix || match Split.stripLead fieldPrefix.toList field.toList with
    | some ('.' :: _) => true
    | _ => false

def permissionActionNames (set : AppPermissionSet) : List String :=
  set.runtime.map (fun action => "runtime:" ++ action.permission) ++
    set.appOps.map fun action => "app_op:" ++ action.op

def validatePermissionSetChange (editedSet : PermissionSetName) : Except String Unit :=
  match app.permissionSets with
  | none => .ok ()
  | some sets =>
      let (selected, other) := match editedSet with
        | .baseline => (sets.baseline, sets.elevated)
        | .elevated => (sets.elevated, sets.baseline)
      match selected with
      | none => .ok ()
      | some selected => do
          rejectDiagnostics
            (fun field => (Split.stripLead "permission_sets.baseline".toList field.toList).isSome)
            (validateAppDefinition rules
              { app with permissionSets := some ⟨some selected, none⟩ })
          if other.any fun other => (permissionActionNames selected).any fun name =>
              name ∈ permissionActionNames other then
            .error "Permission automation actions must be unique within and across permission sets."
          else .ok ()

def validateChangedField : ValidationScope → Except String Unit
  | .none => .ok ()
  | .root field => rejectDiagnostics (· = field) (validateAppDefinition rules app)
  | .artifact artifactId =>
      match app.artifacts.get? artifactId with
      | none => .ok ()
      | some artifact =>
          rejectDiagnostics (isEntryField ("artifacts[" ++ artifactId ++ "]"))
            (validateAppDefinition rules { app with artifacts := .ofList [(artifactId, artifact)] })
  | .target targetId =>
      match app.targets.get? targetId with
      | none => .ok ()
      | some target =>
          rejectDiagnostics (isEntryField ("targets[" ++ targetId ++ "]"))
            (validateAppDefinition rules { app with targets := .ofList [(targetId, target)] })
  | .permissionSet name => validatePermissionSetChange rules app name
  | .metadata key =>
      match app.metadata.get? key with
      | none => .ok ()
      | some value =>
          rejectDiagnostics (· = "metadata")
            (validateAppDefinition rules { app with metadata := .ofList [(key, value)] })

end

section

abbrev FilePath := List String

structure OpenedAppDefinitionFile where
  path : FilePath
  source : Option String
  deriving DecidableEq

def OpenedAppDefinitionFile.text (openedFile : OpenedAppDefinitionFile) (message : String) :
    Except String String :=
  openedFile.source.elim (.error message) .ok

structure CatalogIdentity where
  id : String
  packageId : String
  path : FilePath
  authoredRoot : FilePath
  deriving DecidableEq

structure ContentSnapshot where
  appDefinition : AppDefinitionV1
  currentYaml : String
  diagnostics : List Json

structure AppDefinitionDocument where
  path : FilePath
  authoredRoot : Option FilePath
  catalogIdentity : Option CatalogIdentity
  appDefinition : AppDefinitionV1
  currentYaml : String
  savedYaml : String
  openedFile : OpenedAppDefinitionFile
  diagnostics : List Json
  undoStack : List ContentSnapshot
  redoStack : List ContentSnapshot

variable (codec : YamlCodec) (rules : ContentRules)

def emitAppDefinitionDraftYaml (value : AppDefinitionV1) : String :=
  codec.toText (appDefinition.write value)

def diagnosticToValue (diagnostic : AuthoredModelDiagnostic) : Json :=
  .object [("code", .string diagnostic.code), ("message", .string diagnostic.message),
    ("field", .string diagnostic.field)]

def appDefinitionDiagnostics (value : AppDefinitionV1) : List Json :=
  (validateAppDefinition rules value).map diagnosticToValue

def incompatibleHeader (raw : Yaml) : Bool :=
  ((getField raw "schema_version").bind Yaml.asI64).any (· ≠ 1) ||
    ((getField raw "kind").bind Yaml.asStr).any (· ≠ "app_definition")

/-- A captured file as a document. Both roots come from the file system; `catalogRoot` is there
where the file lies in the `apps` directory of a catalog. -/
def openDocument (openedFile : OpenedAppDefinitionFile) (authoredRoot catalogRoot : Option FilePath) :
    Except String AppDefinitionDocument := do
  let source ← openedFile.text "App Definition must be UTF-8 YAML."
  if (codec.fromStr source).any incompatibleHeader then
    .error "This editor opens only App Definitions with kind 'app_definition' and schema_version 1."
  else
    let appDefinition ← (parseAppDefinitionYaml codec source).mapError fun error =>
      "App Definition could not be parsed: " ++ error.message
    .ok { path := openedFile.path
          authoredRoot := authoredRoot.or catalogRoot
          catalogIdentity := catalogRoot.map fun root =>
            ⟨appDefinition.id, appDefinition.packageId, openedFile.path, root⟩
          appDefinition := appDefinition
          currentYaml := emitAppDefinitionDraftYaml codec appDefinition
          savedYaml := emitAppDefinitionDraftYaml codec appDefinition
          openedFile := openedFile
          diagnostics := appDefinitionDiagnostics rules appDefinition
          undoStack := []
          redoStack := [] }

structure DependentAppReferences where
  artifacts : List String
  targets : List String
  deriving DecidableEq

/-- The answer of the save admission for the candidate and the files of that moment. -/
structure AppDefinitionSaveAdmission where
  snapshot : Option DependentAppReferences
  blocking : Bool
  diagnostics : List Json

structure AppDefinitionCommandError where
  message : String
  diagnostics : Option (List Json)

namespace AppDefinitionDocument

def contentSnapshot (document : AppDefinitionDocument) : ContentSnapshot :=
  ⟨document.appDefinition, document.currentYaml, document.diagnostics⟩

def restoreContent (document : AppDefinitionDocument) (snapshot : ContentSnapshot) :
    AppDefinitionDocument :=
  { document with
    appDefinition := snapshot.appDefinition
    currentYaml := snapshot.currentYaml
    diagnostics := snapshot.diagnostics }

def setDiagnostics (document : AppDefinitionDocument) (diagnostics : List Json) :
    AppDefinitionDocument :=
  { document with diagnostics := diagnostics }

def validate (document : AppDefinitionDocument) : AppDefinitionDocument :=
  document.setDiagnostics (appDefinitionDiagnostics rules document.appDefinition)

def isDirty (document : AppDefinitionDocument) : Bool := document.currentYaml ≠ document.savedYaml

def canUndo (document : AppDefinitionDocument) : Bool := !document.undoStack.isEmpty

def canRedo (document : AppDefinitionDocument) : Bool := !document.redoStack.isEmpty

end AppDefinitionDocument

def snapshotMatchesCatalogIdentity (identity : CatalogIdentity) (snapshot : ContentSnapshot) : Bool :=
  snapshot.appDefinition.id = identity.id ∧ snapshot.appDefinition.packageId = identity.packageId

def AppDefinitionDocument.admits (document : AppDefinitionDocument) (snapshot : ContentSnapshot) :
    Bool :=
  document.catalogIdentity.all fun identity => snapshotMatchesCatalogIdentity identity snapshot

def identityFixed : AppDefinitionCommandError :=
  ⟨"Catalog App Definition identity is fixed; create a new App to change its id or package.", none⟩

def AppDefinitionCommand.setsIdentity : AppDefinitionCommand → Bool
  | .setId _ | .setPackageId _ => true
  | _ => false

def deletionError (admission : AppDefinitionSaveAdmission) :
    AppDefinitionCommand → Option AppDefinitionCommandError
  | .removeArtifact id => refused "App Artifact" id DependentAppReferences.artifacts
  | .removeTarget id => refused "App Target" id DependentAppReferences.targets
  | _ => none
where
  refused (kindName id : String) (references : DependentAppReferences → List String) :
      Option AppDefinitionCommandError :=
    match admission.snapshot with
    | none => some ⟨"App Definition references could not be classified reliably, so this deletion was rejected. Review the document diagnostics and repair the catalog inputs before retrying.",
        some admission.diagnostics⟩
    | some dependents =>
        if id ∈ references dependents then
          some ⟨"Cannot remove this referenced " ++ kindName ++ "; repair the affected Recipe references first. See the rejection diagnostics for their locations.",
            some admission.diagnostics⟩
        else none

def applyCommand (document : AppDefinitionDocument) (decoded : Except String AppDefinitionCommand)
    (admission : AppDefinitionSaveAdmission) :
    Except AppDefinitionCommandError (Bool × AppDefinitionDocument) := do
  let command ← decoded.mapError fun message => ⟨message, none⟩
  if document.catalogIdentity.isSome ∧ command.setsIdentity then .error identityFixed
  else
    let (candidate, scope) ← (applyAppDefinitionCommand rules document.appDefinition command).mapError
      fun message => ⟨message, none⟩
    let candidateYaml := emitAppDefinitionDraftYaml codec candidate
    if candidateYaml = document.currentYaml then .ok (false, document)
    else
      (validateChangedField rules candidate scope).mapError fun message =>
        AppDefinitionCommandError.mk message none
      match if document.catalogIdentity.isSome then deletionError admission command else none with
      | some error => .error error
      | none =>
          .ok (true, { document with
            appDefinition := candidate
            currentYaml := candidateYaml
            diagnostics := appDefinitionDiagnostics rules candidate
            undoStack := document.contentSnapshot :: document.undoStack
            redoStack := [] })

def undo (document : AppDefinitionDocument) : Bool × AppDefinitionDocument :=
  match document.undoStack.dropWhile fun snapshot => !document.admits snapshot with
  | [] => (false, { document with undoStack := [] })
  | previous :: rest =>
      (true, { document.restoreContent previous with
        undoStack := rest
        redoStack := document.contentSnapshot :: document.redoStack })

def redo (document : AppDefinitionDocument) : Bool × AppDefinitionDocument :=
  match document.redoStack.dropWhile fun snapshot => !document.admits snapshot with
  | [] => (false, { document with redoStack := [] })
  | next :: rest =>
      (true, { document.restoreContent next with
        redoStack := rest
        undoStack := document.contentSnapshot :: document.undoStack })

def markSaved (document : AppDefinitionDocument) (openedFile : OpenedAppDefinitionFile)
    (yaml : String) : AppDefinitionDocument :=
  { document with
    path := openedFile.path
    openedFile := openedFile
    currentYaml := yaml
    savedYaml := yaml }.validate rules

def setSavedPath (document : AppDefinitionDocument) (path authoredRoot : FilePath) :
    AppDefinitionDocument :=
  let identity : CatalogIdentity :=
    ⟨document.appDefinition.id, document.appDefinition.packageId, path, authoredRoot⟩
  { document with
    path := path
    authoredRoot := some authoredRoot
    catalogIdentity := some identity
    undoStack := document.undoStack.filter (snapshotMatchesCatalogIdentity identity)
    redoStack := document.redoStack.filter (snapshotMatchesCatalogIdentity identity) }

def refreshAfterGeneratorPublication (document : AppDefinitionDocument)
    (openedFile : OpenedAppDefinitionFile) : Except String AppDefinitionDocument := do
  if openedFile.path ≠ document.path then
    .error "The generated App was published to a different document path."
  else
    let source ← openedFile.text "The generated App Definition is not UTF-8 YAML."
    let candidate ← (parseAppDefinitionYaml codec source).mapError fun error =>
      "The generated App Definition could not be parsed: " ++ error.message
    if document.catalogIdentity.any fun identity =>
        identity.id ≠ candidate.id ∨ identity.packageId ≠ candidate.packageId then
      .error "The generated App changed the identity of an open catalog App."
    else
      let yaml := emitAppDefinitionDraftYaml codec candidate
      .ok ({ document with
        appDefinition := candidate
        openedFile := openedFile
        currentYaml := yaml
        savedYaml := yaml
        undoStack := []
        redoStack := [] }.validate rules)

end

section

variable (codec : YamlCodec) (rules : ContentRules)

structure AppDefinitionPersistenceError where
  code : String
  message : String
  path : Option FilePath
  deriving DecidableEq

def AppDefinitionSaveAdmission.canSave (admission : AppDefinitionSaveAdmission) : Bool :=
  admission.snapshot.isSome && !admission.blocking

/-- Publication of an admitted draft; `published` is what storage and the capture of the published
file answer. -/
def persistAppDefinition (value : AppDefinitionV1) (admission : AppDefinitionSaveAdmission)
    (published : Except AppDefinitionPersistenceError OpenedAppDefinitionFile) :
    Except AppDefinitionPersistenceError OpenedAppDefinitionFile := do
  if !admission.canSave then
    .error ⟨"app_definition_save_rejected",
      "The App Definition or one of its direct dependencies has validation errors.", none⟩
  else
    let canonicalYaml ← (emitAppDefinitionYaml codec rules value).mapError fun error =>
      ⟨error.code, error.message, none⟩
    let saved ← published
    if saved.source ≠ some canonicalYaml then
      .error ⟨"app_definition_stale_state",
        "The App Definition changed immediately after publication; reopen it before continuing.",
        some saved.path⟩
    else .ok saved

def savedYaml (openedFile : OpenedAppDefinitionFile) : String := openedFile.source.getD ""

def saveRequestDiagnostic (code message : String) (path field : Option String) : Json :=
  .object [("severity", .string "error"), ("code", .string code), ("message", .string message),
    ("file", (path.map Json.string).getD .null), ("field", (field.map Json.string).getD .null)]

def persistenceErrorToDiagnostic (error : AppDefinitionPersistenceError) : Json :=
  saveRequestDiagnostic error.code error.message
    (error.path.map fun path => "/" ++ String.intercalate "/" path) none

/-- Saving to the opened file; `refreshed` are the diagnostics of the admission afterwards. -/
def saveAppDefinition (document : AppDefinitionDocument) (admission : AppDefinitionSaveAdmission)
    (published : Except AppDefinitionPersistenceError OpenedAppDefinitionFile)
    (refreshed : List Json) : Bool × AppDefinitionDocument :=
  let document := document.setDiagnostics admission.diagnostics
  if !admission.canSave then (false, document)
  else
    match persistAppDefinition codec rules document.appDefinition admission published with
    | .error error => (false, document.setDiagnostics [persistenceErrorToDiagnostic error])
    | .ok openedFile =>
        (true, (markSaved rules document openedFile (savedYaml openedFile)).setDiagnostics refreshed)

def savedRoot (path : FilePath) : FilePath := path.dropLast.dropLast

def saveAppDefinitionAs (document : AppDefinitionDocument)
    (destination : Except Json Unit) (admission : AppDefinitionSaveAdmission)
    (published : Except AppDefinitionPersistenceError OpenedAppDefinitionFile)
    (refreshed : List Json) : Bool × AppDefinitionDocument :=
  match destination with
  | .error diagnostic => (false, document.setDiagnostics [diagnostic])
  | .ok () =>
      let document := document.setDiagnostics admission.diagnostics
      if !admission.canSave then (false, document)
      else
        match persistAppDefinition codec rules document.appDefinition admission published with
        | .error error => (false, document.setDiagnostics [persistenceErrorToDiagnostic error])
        | .ok openedFile =>
            let located := setSavedPath document openedFile.path (savedRoot openedFile.path)
            (true, (markSaved rules located openedFile (savedYaml openedFile)).setDiagnostics refreshed)

end

end EmuChef.Definition
