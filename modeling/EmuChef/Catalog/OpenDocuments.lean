import EmuChef.Authored.Document
import EmuChef.Lib.Checks

/-! The open documents of an editor session and what a catalog change does to them. -/

namespace EmuChef.Catalog

open EmuChef.Authored
open Checks (require)

abbrev FilePath := List String

def displayPath (path : FilePath) : String := "/" ++ String.intercalate "/" path

def parentPath (path : FilePath) : Option FilePath :=
  if path = [] then none else some path.dropLast

structure FileSnapshot where
  path : FilePath
  bytes : List UInt8
  identity : Nat
  deriving DecidableEq

structure RecipeSnapshot where
  recipe : Authored.Recipe
  currentYaml : String
  diagnostics : List Json

structure RecipeDocument where
  path : FilePath
  authoredRoot : Option FilePath
  persistedSnapshot : FileSnapshot
  recipe : Authored.Recipe
  currentYaml : String
  savedYaml : String
  diagnostics : List Json
  appCatalog : Json
  undoStack : List RecipeSnapshot
  redoStack : List RecipeSnapshot

def RecipeDocument.isDirty (document : RecipeDocument) : Bool :=
  document.currentYaml ≠ document.savedYaml

structure AppSnapshot where
  appDefinition : AppDefinition
  currentYaml : String
  diagnostics : List Json

structure CatalogIdentity where
  id : String
  packageId : String
  path : FilePath
  authoredRoot : FilePath
  deriving DecidableEq

structure AppDefinitionDocument where
  path : FilePath
  authoredRoot : Option FilePath
  catalogIdentity : Option CatalogIdentity
  appDefinition : AppDefinition
  currentYaml : String
  savedYaml : String
  openedFile : FileSnapshot
  diagnostics : List Json
  undoStack : List AppSnapshot
  redoStack : List AppSnapshot

def AppDefinitionDocument.isDirty (document : AppDefinitionDocument) : Bool :=
  document.currentYaml ≠ document.savedYaml

structure OpenDocuments where
  documents : OrderedMap String RecipeDocument
  appDefinitions : OrderedMap String AppDefinitionDocument

/-- What opening and checking documents reads of the disk, which stays as it is meanwhile: the files,
their codecs, and the checks against the catalog around them. -/
structure Disk where
  existsAt : FilePath → Bool
  snapshotExistingFile : FilePath → Except String FileSnapshot
  loadRecipe : List UInt8 → FilePath → Except String Authored.Recipe
  emitRecipeYaml : Authored.Recipe → Except String String
  resolvedPath : FilePath → FilePath
  normalizeAuthoredRoot : Option FilePath → FilePath → Option FilePath
  recipeDiagnostics : Authored.Recipe → FilePath → Option FilePath → List Json
  projectAppCatalog : Option FilePath → Json
  rejectSymlinkedCatalogMembership : FilePath → Option FilePath → Except String Unit
  captureAppFile : FilePath → Except String FileSnapshot
  parseAppDefinition : List UInt8 → Except String AppDefinition
  catalogRootForAppPath : FilePath → Option FilePath
  emitDraftYaml : AppDefinition → Except String String
  appDiagnostics : AppDefinition → List Json
  admissionDiagnostics : AppDefinition → FileSnapshot → Option FilePath → Option CatalogIdentity →
    List Json

variable (disk : Disk)

def RecipeDocument.refreshCatalogProjection (document : RecipeDocument) : RecipeDocument :=
  { document with
    diagnostics := disk.recipeDiagnostics document.recipe document.path document.authoredRoot
    appCatalog := disk.projectAppCatalog document.authoredRoot }

def openRecipe (inputPath : FilePath) (authoredRoot : Option FilePath) :
    Except String RecipeDocument := do
  let persistedSnapshot ← disk.snapshotExistingFile inputPath
  let recipe ← disk.loadRecipe persistedSnapshot.bytes inputPath
  let currentYaml ← disk.emitRecipeYaml recipe
  let path := disk.resolvedPath inputPath
  let authoredRoot := disk.normalizeAuthoredRoot authoredRoot path
  return {
    path := path
    authoredRoot := authoredRoot
    persistedSnapshot := persistedSnapshot
    recipe := recipe
    currentYaml := currentYaml
    savedYaml := currentYaml
    diagnostics := disk.recipeDiagnostics recipe path authoredRoot
    appCatalog := disk.projectAppCatalog authoredRoot
    undoStack := []
    redoStack := [] }

def openAppDefinition (requestedPath : FilePath) (authoredRoot : Option FilePath) :
    Except String AppDefinitionDocument := do
  disk.rejectSymlinkedCatalogMembership requestedPath authoredRoot
  let openedFile ← disk.captureAppFile requestedPath
  let path := openedFile.path
  let appDefinition ← disk.parseAppDefinition openedFile.bytes
  let physicalCatalogRoot := disk.catalogRootForAppPath path
  let currentYaml ← disk.emitDraftYaml appDefinition
  return {
    path := path
    authoredRoot := (authoredRoot.bind fun root => disk.normalizeAuthoredRoot (some root) path).or
      physicalCatalogRoot
    catalogIdentity := physicalCatalogRoot.map fun authoredRoot =>
      ⟨appDefinition.id, appDefinition.packageId, path, authoredRoot⟩
    appDefinition := appDefinition
    currentYaml := currentYaml
    savedYaml := currentYaml
    openedFile := openedFile
    diagnostics := disk.appDiagnostics appDefinition
    undoStack := []
    redoStack := [] }

def refreshAppDefinitionDiagnostics (document : AppDefinitionDocument) : AppDefinitionDocument :=
  { document with
    diagnostics := disk.admissionDiagnostics document.appDefinition document.openedFile
      ((document.catalogIdentity.map CatalogIdentity.authoredRoot).or document.authoredRoot)
      document.catalogIdentity }

def openedAppDefinition (path : FilePath) (authoredRoot : Option FilePath) :
    Except String AppDefinitionDocument :=
  (openAppDefinition disk path authoredRoot).map (refreshAppDefinitionDiagnostics disk)

section

variable (changedFiles : List FilePath)

def affectedDirtyPaths (session : OpenDocuments) : List FilePath :=
  ((session.documents.values.filter RecipeDocument.isDirty).map RecipeDocument.path ++
      (session.appDefinitions.values.filter AppDefinitionDocument.isDirty).map
        AppDefinitionDocument.path).filter fun path => path ∈ changedFiles

def dirtyPathsMessage (paths : List FilePath) : String :=
  "Affected documents became dirty before reconciliation: " ++
    String.intercalate ", "
      ((paths.mergeSort fun first second => ¬second < first).dedup.map displayPath)

def reloadRecipe (entry : String × RecipeDocument) : Except String (String × RecipeDocument) :=
  match openRecipe disk entry.2.path entry.2.authoredRoot with
  | .ok reloaded => .ok (entry.1, reloaded)
  | .error error => .error ("Affected Recipe " ++ displayPath entry.2.path ++
      " could not be reconciled: " ++ error)

inductive AppUpdate where
  | reloaded (document : AppDefinitionDocument)
  | closed

/-- The path of the list that a vanished App Definition is taken to be renamed to: the first one that
is there, is another and lies in the same directory. -/
def renamedPath (path : FilePath) : Option FilePath :=
  changedFiles.find? fun changed =>
    disk.existsAt changed && changed ≠ path && parentPath changed = parentPath path

def reloadApp (entry : String × AppDefinitionDocument) : Except String (String × AppUpdate) :=
  let document := entry.2
  match openedAppDefinition disk document.path document.authoredRoot with
  | .ok reloaded => .ok (entry.1, .reloaded reloaded)
  | .error error =>
      if disk.existsAt document.path = false then
        match renamedPath disk changedFiles document.path with
        | none => .ok (entry.1, .closed)
        | some path =>
            match openedAppDefinition disk path document.authoredRoot with
            | .ok reloaded => .ok (entry.1, .reloaded reloaded)
            | .error error => .error ("Renamed App Definition " ++ displayPath path ++
                " could not be reconciled: " ++ error)
      else .error ("Affected App Definition " ++ displayPath document.path ++
        " could not be reconciled: " ++ error)

structure Updates where
  recipes : List (String × RecipeDocument)
  apps : List (String × AppUpdate)

def loadUpdates (session : OpenDocuments) : Except String Updates := do
  require (affectedDirtyPaths changedFiles session = [])
    (dirtyPathsMessage (affectedDirtyPaths changedFiles session))
  let recipes ← (session.documents.entries.filter fun entry => entry.2.path ∈ changedFiles).mapM
    (reloadRecipe disk)
  let apps ← (session.appDefinitions.entries.filter fun entry => entry.2.path ∈ changedFiles).mapM
    (reloadApp disk changedFiles)
  return { recipes := recipes, apps := apps }

def replaceRecipe (documents : OrderedMap String RecipeDocument) (update : String × RecipeDocument) :
    OrderedMap String RecipeDocument :=
  if documents.contains update.1 then documents.insert update.1 update.2 else documents

def replaceApp (documents : OrderedMap String AppDefinitionDocument) (update : String × AppUpdate) :
    OrderedMap String AppDefinitionDocument :=
  match update.2 with
  | .reloaded document =>
      if documents.contains update.1 then documents.insert update.1 document else documents
  | .closed => documents

def closeApp (documents : OrderedMap String AppDefinitionDocument) (update : String × AppUpdate) :
    OrderedMap String AppDefinitionDocument :=
  match update.2 with
  | .reloaded _ => documents
  | .closed => documents.erase update.1

def refreshProjection (_ : String) (document : RecipeDocument) : RecipeDocument :=
  match document.authoredRoot with
  | none => document
  | some root =>
      if (changedFiles.any fun path => root.isPrefixOf path) = true then
        document.refreshCatalogProjection disk
      else document

def commit (updates : Updates) (session : OpenDocuments) : OpenDocuments :=
  { documents := (updates.recipes.foldl replaceRecipe session.documents).mapValues
      (refreshProjection disk changedFiles)
    appDefinitions := updates.apps.foldl closeApp
      (updates.apps.foldl replaceApp session.appDefinitions) }

def reconcileCatalogChange (session : OpenDocuments) : Except String Unit × OpenDocuments :=
  match loadUpdates disk changedFiles session with
  | .error error => (.error error, session)
  | .ok updates => (.ok (), commit disk changedFiles updates session)

end

end EmuChef.Catalog
