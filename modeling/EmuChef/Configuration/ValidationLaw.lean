import EmuChef.Authored.InputDeclaration
import EmuChef.Configuration.Validation
import EmuChef.Review.Precedence

/-! Where a saved configuration without diagnostics can be planned without errors of its bindings. -/

namespace EmuChef.Configuration

open DepthFirst (Reached)
open Planner

def hostCheckCodes : List String :=
  ["binding_path_missing", "binding_path_kind_mismatch", "binding_duplicate_path",
    "binding_extension_unsupported"]

section

variable {host : Host} {declaration : InputDeclaration} {path lead inputId : String} {index : Nat}

/-- What a prefix covers for planning; the root covers only itself and what starts with two slashes. -/
def Covers (path lead : String) : Prop :=
  if lead = "/" then path = "/" ∨ ['/', '/'] <+: path.toList
  else Planner.pathHasPrefix path lead = true

def PathAccepted (declaration : InputDeclaration) (path : String) : Prop :=
  declaration.validation.allowedPrefixes ≠ [] →
    ∃ lead ∈ declaration.validation.allowedPrefixes, Covers path lead

def Accepted (declaration : InputDeclaration) (value : Json) : Prop :=
  (declaration.required = true → bindingItems declaration value ≠ []) ∧
    ∀ path, Json.string path ∈ bindingItems declaration value → PathAccepted declaration path

theorem pathHasPrefix_eq_true : Planner.pathHasPrefix path lead = true ↔
    ∃ rest, path.toList = lead.toList ++ rest ∧ (rest = [] ∨ rest.head? = some '/') := by
  rw [Planner.pathHasPrefix]
  split
  next rest stripped =>
    have spelled := Split.stripLead_eq_some.mp stripped
    simp only [Bool.or_eq_true, decide_eq_true_eq]
    constructor
    · exact fun ends => ⟨rest, spelled, ends⟩
    · rintro ⟨other, same, ends⟩
      rwa [List.append_cancel_left (spelled.symm.trans same)]
  next missing =>
    refine iff_of_false (by simp) ?_
    rintro ⟨rest, spelled, _⟩
    rw [Split.stripLead_eq_some.mpr spelled] at missing
    cases missing

theorem pathHasPrefix_iff_covers : Planner.pathHasPrefix path lead = true ↔ Covers path lead := by
  rw [Covers]
  split_ifs with root
  · subst root
    rw [pathHasPrefix_eq_true, ← String.toList_inj]
    constructor
    · rintro ⟨rest, spelled, rfl | second⟩
      · exact .inl spelled
      · obtain ⟨tail, rfl⟩ := List.head?_eq_some_iff.mp second
        exact .inr ⟨tail, spelled.symm⟩
    · rintro (spelled | ⟨tail, spelled⟩)
      · exact ⟨[], spelled, .inl rfl⟩
      · exact ⟨'/' :: tail, spelled.symm, .inr rfl⟩
  · rfl

theorem isAbsolute_iff : isAbsolute path = true ↔ ∃ rest, path.toList = '/' :: rest := by
  rw [isAbsolute, decide_eq_true_eq, List.head?_eq_some_iff]

theorem isAbsolute_of_pathHasPrefix (absolute : isAbsolute lead = true)
    (below : pathHasPrefix path lead = true) : isAbsolute path = true := by
  rw [pathHasPrefix, Bool.or_eq_true, Bool.and_eq_true] at below
  rcases below with ⟨_, below⟩ | below
  · exact below
  · obtain ⟨first, letters⟩ := isAbsolute_iff.mp absolute
    obtain ⟨rest, spelled, _⟩ := pathHasPrefix_eq_true.mp below
    exact isAbsolute_iff.mpr ⟨first ++ rest, by rw [spelled, letters, List.cons_append]⟩

end

section

variable {host : Host} {declaration : InputDeclaration} {inputId : String} {value : Json}

def OnlyHostChecks (messages : List PlannerMessage) : Prop :=
  ∀ message ∈ messages, message.code ∈ hostCheckCodes

theorem onlyHostChecks_append {first second : List PlannerMessage} :
    OnlyHostChecks (first ++ second) ↔ OnlyHostChecks first ∧ OnlyHostChecks second := by
  simp only [OnlyHostChecks, List.mem_append, or_imp, forall_and]

variable {index : Nat} {canonicalPaths : OrderedMap (List TextPath.Component) Nat}

theorem validateExistingPath_host {path : String} :
    OnlyHostChecks (Planner.validateExistingPath host inputId declaration index path) := by
  intro message member
  simp only [Planner.validateExistingPath] at member
  split at member
  · split_ifs at member
    · cases member
    · rw [List.mem_singleton.mp member]
      change "binding_path_kind_mismatch" ∈ hostCheckCodes
      decide
  · rw [List.mem_singleton.mp member]
    change "binding_path_missing" ∈ hostCheckCodes
    decide

theorem validateBindingPath_host {path : String} :
    OnlyHostChecks (validateBindingPath host inputId declaration index path) ↔
      PathAccepted declaration path := by
  rw [validateBindingPath, onlyHostChecks_append, onlyHostChecks_append]
  have existence : OnlyHostChecks
      (if declaration.validation.mustExist ∧ Planner.inputUsesHostPath declaration.typeName then
        Planner.validateExistingPath host inputId declaration index path else []) := by
    split_ifs
    · exact validateExistingPath_host
    · exact fun _ member => by cases member
  have extension : OnlyHostChecks
      (if declaration.validation.allowedExtensions ≠ [] ∧
          Planner.extensionIsDisallowed host path declaration.validation.allowedExtensions then
        [Planner.bindingFailure "binding_extension_unsupported" "has an unsupported path extension."
          inputId [("allowed_extensions", Json.strings declaration.validation.allowedExtensions),
            Planner.entryIndex index]] else []) := by
    intro message member
    split_ifs at member
    · rw [List.mem_singleton.mp member]
      change "binding_extension_unsupported" ∈ hostCheckCodes
      decide
    · cases member
  have covered : declaration.validation.allowedPrefixes.any (Planner.pathHasPrefix path) = true ↔
      ∃ lead ∈ declaration.validation.allowedPrefixes, Covers path lead := by
    simp only [List.any_eq_true, pathHasPrefix_iff_covers]
  rw [and_iff_left extension, and_iff_right existence, PathAccepted, ← covered]
  split_ifs with refused
  · refine iff_of_false (fun only => ?_) (fun accepted => ?_)
    · exact absurd (only _ (.head _)) (show "binding_validation_failed" ∉ hostCheckCodes by decide)
    · simp [accepted refused.1] at refused
  · refine iff_of_true (fun _ member => by cases member) fun named => ?_
    by_contra outside
    exact refused ⟨named, by simpa using outside⟩

theorem validateBindingItems_host {values : List Json}
    (declared : ∀ item ∈ values, declaration.typeName = "enum" →
      declaration.options.any (·.equal item) = true) :
    OnlyHostChecks (validateBindingItems host inputId declaration canonicalPaths index values) ↔
      ∀ path, Json.string path ∈ values → PathAccepted declaration path := by
  induction values generalizing index canonicalPaths with
  | nil => exact iff_of_true (fun _ member => by cases member) (fun _ member => by cases member)
  | cons item rest ih =>
      have others := fun item member => declared item (List.mem_cons_of_mem _ member)
      have known : ¬ (declaration.typeName = "enum" ∧
          (!declaration.options.any (·.equal item)) = true) := by
        rintro ⟨named, unknown⟩
        simp [declared item (.head _) named] at unknown
      rw [validateBindingItems, if_neg known]
      cases text : item.asStr with
      | none =>
          have apart : ∀ path, Json.string path ≠ item := by
            rintro path rfl
            cases text
          simp only [List.mem_cons, apart, false_or]
          exact ih others
      | some path =>
          have held := Json.asStr_eq_some.mp text
          subst held
          have single : (∀ other, Json.string other ∈ Json.string path :: rest →
              PathAccepted declaration other) ↔ PathAccepted declaration path ∧
                ∀ other, Json.string other ∈ rest → PathAccepted declaration other := by
            simp only [List.mem_cons, Json.string.injEq, or_imp, forall_and, forall_eq]
          have duplicates (identity : List TextPath.Component) : OnlyHostChecks
              ((canonicalPaths.get? identity).toList.map fun first =>
                Planner.bindingFailure "binding_duplicate_path" "contains the same path more than once."
                  inputId [Planner.entryIndex index, ("first_entry_index", .integer first)]) := by
            intro message member
            obtain ⟨first, _, rfl⟩ := List.mem_map.mp member
            change "binding_duplicate_path" ∈ hostCheckCodes
            decide
          rw [single, ← validateBindingPath_host]
          dsimp only
          split_ifs
          · rw [onlyHostChecks_append, onlyHostChecks_append, ih others, and_iff_left (duplicates _)]
          · rw [onlyHostChecks_append, ih others]

theorem isString_normalizeBindingItem {item : Json} :
    (normalizeBindingItem host item).isString = item.isString := by
  cases item with
  | string path => rfl
  | _ => rfl

theorem normalized_items (typed : valueMatchesType declaration value = true) :
    valueMatchesType declaration (normalizeBindingValue host declaration value) = true ∧
      bindingItems declaration (normalizeBindingValue host declaration value) =
        if declaration.typeName = "file" ∨ declaration.typeName = "directory" ∨
            declaration.typeName = "path" then
          (bindingItems declaration value).map (normalizeBindingItem host)
        else bindingItems declaration value := by
  unfold normalizeBindingValue
  by_cases hostTyped : declaration.typeName = "file" ∨ declaration.typeName = "directory" ∨
      declaration.typeName = "path"
  · rw [if_pos hostTyped, if_pos hostTyped]
    have scalar : Planner.scalarInputValueMatches declaration.typeName = Json.isString := by
      rcases hostTyped with named | named | named
      · rw [named]; rfl
      · rw [named]; rfl
      · rw [named]; rfl
    have single : ¬ (declaration.typeName = "string_list" ∨ declaration.typeName = "path_list") := by
      rcases hostTyped with named | named | named
      · rw [named]; decide
      · rw [named]; decide
      · rw [named]; decide
    by_cases several : declaration.multiple = true
    · rw [if_pos several]
      cases value with
      | array items =>
          simp only [valueMatchesType, several, if_true, Json.asArray, Option.any_some, scalar,
            List.all_map, Function.comp_def, isString_normalizeBindingItem, bindingItems, true_or,
            Option.getD_some] at typed ⊢
          exact ⟨typed, trivial⟩
      | _ => simp [valueMatchesType, several, Json.asArray] at typed
    · rw [if_neg several]
      have matching (held : Json) : valueMatchesType declaration held = held.isString := by
        rw [valueMatchesType, if_neg several]
        rcases hostTyped with named | named | named
        · rw [named]; rfl
        · rw [named]; rfl
        · rw [named]; rfl
      rw [matching] at typed ⊢
      refine ⟨isString_normalizeBindingItem.trans typed, ?_⟩
      have scalarItems (held : Json) : bindingItems declaration held = [held] := by
        rw [bindingItems, if_neg]
        rintro (held | listed)
        · exact several held
        · exact single listed
      rw [scalarItems, scalarItems, List.map_singleton]
  · rw [if_neg hostTyped, if_neg hostTyped]
    exact ⟨typed, rfl⟩

theorem validateSavedItem_clean {key : String} {item : Json}
    (clean : validateSavedItem key declaration item = []) :
    (declaration.typeName = "enum" → declaration.options.any (·.equal item) = true) ∧
      ∀ path, item = .string path → declaration.validation.allowedPrefixes ≠ [] →
        ∃ lead ∈ declaration.validation.allowedPrefixes, pathHasPrefix path lead = true := by
  rw [validateSavedItem, List.append_eq_nil_iff] at clean
  constructor
  · intro named
    by_contra unknown
    rw [if_pos ⟨named, by simpa using unknown⟩] at clean
    cases clean.1
  · rintro path rfl named
    by_contra outside
    have refused : (!declaration.validation.allowedPrefixes.any (pathHasPrefix path)) = true := by
      simpa using outside
    have later := clean.2
    simp only [Json.asStr] at later
    rw [if_pos ⟨named, refused⟩] at later
    cases later

theorem validateBindingValue_host {key : String}
    (absolute : ∀ lead ∈ declaration.validation.allowedPrefixes, isAbsolute lead = true)
    (clean : validateSavedValue key declaration value = []) :
    OnlyHostChecks (validateBindingValue host inputId declaration
        (normalizeBindingValue host declaration value)) ↔ Accepted declaration value := by
  have typed : valueMatchesType declaration value = true := by
    by_contra other
    rw [validateSavedValue, if_neg other] at clean
    cases clean
  rw [validateSavedValue, if_pos typed, List.flatMap_eq_nil_iff] at clean
  obtain ⟨kept, items⟩ := @normalized_items host declaration value typed
  have same : declaration.validation.allowedPrefixes ≠ [] →
      bindingItems declaration (normalizeBindingValue host declaration value) =
        bindingItems declaration value := by
    intro named
    rw [items]
    split_ifs
    · refine (List.map_congr_left fun item member => ?_).trans (List.map_id _)
      cases item with
      | string path =>
          obtain ⟨lead, listed, below⟩ := (validateSavedItem_clean (clean _ member)).2 path rfl named
          exact congrArg Json.string (Review.normalizePathString_absolute
            (isAbsolute_of_pathHasPrefix (absolute lead listed) below))
      | _ => rfl
    · rfl
  have paths : (∀ path, Json.string path ∈ bindingItems declaration
        (normalizeBindingValue host declaration value) → PathAccepted declaration path) ↔
      ∀ path, Json.string path ∈ bindingItems declaration value → PathAccepted declaration path := by
    by_cases named : declaration.validation.allowedPrefixes = []
    · exact iff_of_true (fun _ _ free => absurd named free) (fun _ _ free => absurd named free)
    · rw [same named]
  have empty : bindingItems declaration (normalizeBindingValue host declaration value) = [] ↔
      bindingItems declaration value = [] := by
    rw [items]
    split_ifs
    · exact List.map_eq_nil_iff
    · rfl
  have declared : ∀ item ∈ bindingItems declaration (normalizeBindingValue host declaration value),
      declaration.typeName = "enum" → declaration.options.any (·.equal item) = true := by
    intro item member named
    rw [items, if_neg (by rw [named]; decide)] at member
    exact (validateSavedItem_clean (clean item member)).1 named
  rw [validateBindingValue, if_neg (by simp [kept])]
  dsimp only
  rw [Accepted, ← paths]
  split_ifs with refused
  · refine iff_of_false (fun only => ?_) (fun accepted => ?_)
    · exact absurd (only _ (.head _)) (show "binding_validation_failed" ∉ hostCheckCodes by decide)
    · exact accepted.1 refused.1 (empty.mp refused.2)
  · rw [validateBindingItems_host declared]
    refine (and_iff_right fun required none => refused ⟨required, empty.mpr none⟩).symm

def About (inputId : String) (message : PlannerMessage) : Prop :=
  message.details.field? "input_id" = some (.string inputId) ∧ message.code ≠ "binding_missing"

theorem bindingFailure_about {code message : String} {details : List (String × Json)}
    (other : code ≠ "binding_missing") :
    About inputId (Planner.bindingFailure code message inputId details) := ⟨rfl, other⟩

theorem validateExistingPath_about {path : String} :
    ∀ message ∈ Planner.validateExistingPath host inputId declaration index path,
      About inputId message := by
  intro message member
  simp only [Planner.validateExistingPath] at member
  split at member
  · split_ifs at member
    · cases member
    · rw [List.mem_singleton.mp member]
      exact bindingFailure_about (by decide)
  · rw [List.mem_singleton.mp member]
    exact bindingFailure_about (by decide)

theorem validateBindingPath_about {path : String} :
    ∀ message ∈ validateBindingPath host inputId declaration index path, About inputId message := by
  intro message member
  simp only [validateBindingPath, List.mem_append] at member
  rcases member with (existence | outside) | extension
  · split_ifs at existence
    · exact validateExistingPath_about message existence
    · cases existence
  · split_ifs at outside
    · rw [List.mem_singleton.mp outside]
      exact bindingFailure_about (by decide)
    · cases outside
  · split_ifs at extension
    · rw [List.mem_singleton.mp extension]
      exact bindingFailure_about (by decide)
    · cases extension

theorem validateBindingItems_about {values : List Json} :
    ∀ message ∈ validateBindingItems host inputId declaration canonicalPaths index values,
      About inputId message := by
  induction values generalizing index canonicalPaths with
  | nil => exact fun _ member => by cases member
  | cons item rest ih =>
      intro message member
      rw [validateBindingItems] at member
      by_cases unknown : declaration.typeName = "enum" ∧ (!declaration.options.any (·.equal item)) = true
      · rw [if_pos unknown] at member
        rcases List.mem_cons.mp member with rfl | later
        · exact bindingFailure_about (by decide)
        · exact ih message later
      · rw [if_neg unknown] at member
        cases text : item.asStr with
        | none =>
            simp only [text] at member
            exact ih message member
        | some path =>
            simp only [text] at member
            split_ifs at member
            · simp only [List.mem_append] at member
              rcases member with (path | duplicate) | later
              · exact validateBindingPath_about message path
              · obtain ⟨first, _, rfl⟩ := List.mem_map.mp duplicate
                exact bindingFailure_about (by decide)
              · exact ih message later
            · rcases List.mem_append.mp member with path | later
              · exact validateBindingPath_about message path
              · exact ih message later

theorem validateBindingValue_about :
    ∀ message ∈ validateBindingValue host inputId declaration value, About inputId message := by
  intro message member
  rw [validateBindingValue] at member
  dsimp only at member
  split_ifs at member
  · rw [List.mem_singleton.mp member]
    exact bindingFailure_about (by decide)
  · rw [List.mem_singleton.mp member]
    exact bindingFailure_about (by decide)
  · exact validateBindingItems_about message member

end

section

variable {recipes : OrderedMap String Authored.Recipe} {key : String} {declaration : InputDeclaration}

def Declares (recipes : OrderedMap String Authored.Recipe) (key recipeId inputId : String)
    (declaration : InputDeclaration) : Prop :=
  splitBindingKey key = some (recipeId, inputId) ∧
    ∃ recipe, recipes.get? recipeId = some recipe ∧ recipe.inputs.get? inputId = some declaration

theorem split_of_valid (valid : validateBindingKey key = .ok ()) :
    ∃ recipeId inputId, Split.splitOnce ['/'] key.toList = some (recipeId, inputId) ∧
      splitBindingKey key = some (String.ofList recipeId, String.ofList inputId) := by
  rw [validateBindingKey] at valid
  split at valid
  next => cases valid
  next recipeId inputId found =>
    split_ifs at valid with malformed
    refine ⟨recipeId, inputId, found, ?_⟩
    have whole : ¬ (recipeId = [] ∨ inputId = [] ∨ '/' ∈ inputId) := by
      rw [not_or, not_or] at malformed ⊢
      exact ⟨malformed.2.1, malformed.2.2, malformed.1⟩
    rw [splitBindingKey, found, Option.bind_some, if_neg whole]

theorem saved_of_clean {effectiveRecipes : List String} {value : Json}
    (valid : validateBindingKey key = .ok ())
    (clean : savedBindingDiagnostics recipes effectiveRecipes key value = []) :
    ∃ recipeId inputId declaration, Declares recipes key recipeId inputId declaration ∧
      recipeId ∈ effectiveRecipes ∧ validateSavedValue key declaration value = [] := by
  obtain ⟨recipeId, inputId, found, split⟩ := split_of_valid valid
  rw [savedBindingDiagnostics, found] at clean
  dsimp only at clean
  split at clean
  next => cases clean
  next recipe known =>
    split at clean
    next => cases clean
    next declaration declared =>
      obtain ⟨selected, fits⟩ := List.append_eq_nil_iff.mp clean
      refine ⟨_, _, declaration, ⟨split, recipe, known, declared⟩, ?_, fits⟩
      by_contra outside
      rw [if_neg outside] at selected
      cases selected

theorem Declares.unique {recipeId inputId otherRecipe otherInput : String}
    {other : InputDeclaration} (first : Declares recipes key recipeId inputId declaration)
    (second : Declares recipes key otherRecipe otherInput other) :
    otherRecipe = recipeId ∧ otherInput = inputId ∧ other = declaration := by
  obtain ⟨split, recipe, known, declared⟩ := first
  obtain ⟨split', recipe', known', declared'⟩ := second
  obtain ⟨rfl, rfl⟩ := Prod.mk.inj (Option.some.inj (split.symm.trans split'))
  cases known.symm.trans known'
  exact ⟨rfl, rfl, Option.some.inj (declared'.symm.trans declared)⟩

end

section

variable {host : Host} {recipes : OrderedMap String Authored.Recipe}
  {configuration : UserConfiguration} {devicePlan : OrderedMap String Json}
  {expandedRecipeRefs : List String}

/-- The message is about a saved binding or about a required input without a value, and no check of
the host or of an extension made it. -/
def Blames (configuration : UserConfiguration) (message : PlannerMessage) : Prop :=
  message.code ∉ hostCheckCodes ∧ (message.code = "binding_missing" ∨
    ∃ key ∈ configuration.bindings.keys,
      message.details.field? "input_id" = some (.string key))

def PlansCleanly (host : Host) (recipes : OrderedMap String Authored.Recipe)
    (configuration : UserConfiguration) (devicePlan : OrderedMap String Json)
    (expandedRecipeRefs : List String) : Prop :=
  ∀ message ∈ (resolveRuntimeBindings host recipes expandedRecipeRefs
      ⟨.empty, configuration.bindings, devicePlan⟩).diagnostics, ¬ Blames configuration message

structure Clean (recipes : OrderedMap String Authored.Recipe) (configuration : UserConfiguration)
    (devicePlan : OrderedMap String Json) : Prop where
  known : (expandSelectedRecipes recipes configuration.selectedRecipes).diagnostics = []
  bindings : ∀ entry ∈ configuration.bindings.entries, savedBindingDiagnostics recipes
    (expandSelectedRecipes recipes configuration.selectedRecipes).expanded entry.1 entry.2 = []
  required : ∀ recipeId ∈ (expandSelectedRecipes recipes configuration.selectedRecipes).expanded,
    ∀ recipe, recipes.get? recipeId = some recipe → ∀ entry ∈ recipe.inputs.entries,
      missingRequiredInput configuration devicePlan recipeId entry.1 entry.2 = []

theorem clean_of_validated
    (validated : validateWithRecipes recipes configuration (.ok devicePlan) = []) :
    Clean recipes configuration devicePlan := by
  simp only [validateWithRecipes, List.append_nil, List.append_eq_nil_iff,
    List.flatMap_eq_nil_iff] at validated
  obtain ⟨⟨known, bindings⟩, required⟩ := validated
  refine ⟨known, bindings, fun recipeId listed recipe found entry member => ?_⟩
  exact required recipeId listed recipe (by simp [found]) entry member

theorem bindingKeyErrors_input {key : String} : ∀ message ∈
    Planner.bindingKeyErrors recipes expandedRecipeRefs key,
      message.code ≠ "binding_missing" ∧
        message.details.field? "input_id" = some (.string key) := by
  have unknown (reason : String) : (Planner.unknownBinding key reason).code ≠ "binding_missing" ∧
      (Planner.unknownBinding key reason).details.field? "input_id" = some (.string key) :=
    ⟨show "unknown_binding" ≠ "binding_missing" by decide, rfl⟩
  intro message member
  rw [Planner.bindingKeyErrors] at member
  split at member
  · rw [List.mem_singleton.mp member]
    exact unknown _
  · split at member
    · rw [List.mem_singleton.mp member]
      exact unknown _
    · split_ifs at member
      · rw [List.mem_singleton.mp member]
        exact unknown _
      · cases member
      · rw [List.mem_singleton.mp member]
        exact ⟨show "binding_recipe_not_selected" ≠ "binding_missing" by decide, rfl⟩

def Selects (recipes : OrderedMap String Authored.Recipe) (selectedRecipes expandedRecipeRefs : List String) :
    Prop :=
  ∀ id, id ∈ expandedRecipeRefs ↔ Reached (dependencies recipes) selectedRecipes id

section

variable (selects : Selects recipes configuration.selectedRecipes expandedRecipeRefs)

include selects

theorem bindingKeyErrors_saved
    (valid : configuration.KeysValid) (clean : Clean recipes configuration devicePlan)
    {key : String} (saved : key ∈ configuration.bindings.keys) :
    Planner.bindingKeyErrors recipes expandedRecipeRefs key = [] ∧
      ∀ value, configuration.bindings.get? key = some value →
        ∃ recipeId inputId declaration, Declares recipes key recipeId inputId declaration ∧
          recipeId ∈ expandedRecipeRefs ∧ validateSavedValue key declaration value = [] := by
  obtain ⟨value, held⟩ := Option.isSome_iff_exists.mp (OrderedMap.get?_isSome.mpr saved)
  obtain ⟨recipeId, inputId, declaration, declares, selected, fits⟩ :=
    saved_of_clean (valid key saved) (clean.bindings _ (OrderedMap.get?_eq_some.mp held))
  have inside : recipeId ∈ expandedRecipeRefs :=
    (selects recipeId).mpr ((mem_expandSelectedRecipes clean.known recipeId).mp selected)
  obtain ⟨split, recipe, found, declared⟩ := declares
  have contained : recipe.inputs.contains inputId = true := by
    rw [OrderedMap.contains_iff, declared, Option.isSome_some]
  refine ⟨?_, fun other same => ?_⟩
  · rw [Planner.bindingKeyErrors, split]
    simp [found, contained, inside]
  · cases held.symm.trans same
    exact ⟨recipeId, inputId, declaration, ⟨split, recipe, found, declared⟩, inside, fits⟩

theorem rawBinding_present
    (clean : Clean recipes configuration devicePlan) {recipeId inputId : String} {declaration : InputDeclaration}
    (declared : (recipeId, inputId, declaration) ∈ Planner.declaredInputs recipes expandedRecipeRefs)
    (required : declaration.required = true) :
    Planner.rawBinding ⟨.empty, configuration.bindings, devicePlan⟩
      (makeExecutionInputId recipeId inputId) declaration ≠ none := by
  obtain ⟨listed, recipe, found, held⟩ := Review.mem_declaredInputs.mp declared
  have expanded : recipeId ∈ (expandSelectedRecipes recipes configuration.selectedRecipes).expanded :=
    (mem_expandSelectedRecipes clean.known recipeId).mpr ((selects recipeId).mp listed)
  have present := clean.required recipeId expanded recipe found _ (OrderedMap.get?_eq_some.mp held)
  intro missing
  simp only [Planner.rawBinding, OrderedMap.get?_empty, Option.map_none, Option.none_or,
    Option.or_eq_none_iff, Option.map_eq_none_iff, ite_eq_left_iff, reduceCtorEq, imp_false,
    Bool.not_eq_true, Bool.not_eq_false] at missing
  obtain ⟨user, device, default⟩ := missing
  have absent (map : OrderedMap String Json)
      (none : map.get? (makeExecutionInputId recipeId inputId) = none) :
      (!map.contains (makeExecutionInputId recipeId inputId)) = true := by
    rw [Bool.not_eq_true', ← Bool.not_eq_true, OrderedMap.contains_iff, none]
    simp
  rw [missingRequiredInput, if_pos ⟨required, absent _ user, absent _ device, default⟩] at present
  cases present

omit selects in
theorem resolved_saved {key recipeId inputId : String} {declaration : InputDeclaration} {value : Json}
    (declares : Declares recipes key recipeId inputId declaration)
    (held : configuration.bindings.get? key = some value) :
    (Planner.resolveInput host ⟨.empty, configuration.bindings, devicePlan⟩ recipeId inputId
      declaration).value = some (normalizeBindingValue host declaration value) := by
  have same := (Review.splitBindingKey_eq_some declares.1).1
  simp only [Planner.resolveInput, Planner.rawBinding, ← same, held, OrderedMap.get?_empty,
    Option.map_none, Option.none_or, Option.map_some, Option.some_or]

theorem plansCleanly_iff_of_clean
    (valid : configuration.KeysValid) (clean : Clean recipes configuration devicePlan)
    (absolute : ∀ recipeId recipe, recipes.get? recipeId = some recipe → ∀ inputId declaration,
      recipe.inputs.get? inputId = some declaration →
        ∀ lead ∈ declaration.validation.allowedPrefixes, isAbsolute lead = true) :
    PlansCleanly host recipes configuration devicePlan expandedRecipeRefs ↔
      ∀ key value, configuration.bindings.get? key = some value →
        ∀ recipeId inputId declaration, Declares recipes key recipeId inputId declaration →
          Accepted declaration value := by
  constructor
  · intro cleanly key value held recipeId inputId declaration declares
    have saved : key ∈ configuration.bindings.keys :=
      OrderedMap.get?_isSome.mp (by rw [held, Option.isSome_some])
    obtain ⟨_, _, _, other, listed, fits⟩ :=
      (bindingKeyErrors_saved selects valid clean saved).2 value held
    obtain ⟨rfl, rfl, rfl⟩ := other.unique declares
    obtain ⟨split, recipe, found, declared⟩ := declares
    have same := (Review.splitBindingKey_eq_some split).1
    refine (@validateBindingValue_host host _ (makeExecutionInputId recipeId inputId) _ _
      (absolute _ _ found _ _ declared) fits).mp fun message member => ?_
    have reported : message ∈ (resolveRuntimeBindings host recipes expandedRecipeRefs
        ⟨.empty, configuration.bindings, devicePlan⟩).diagnostics := by
      refine List.mem_append_right _ (List.mem_flatMap.mpr ⟨_, List.mem_map.mpr
        ⟨_, Review.mem_declaredInputs.mpr ⟨listed, recipe, found, declared⟩, rfl⟩, ?_⟩)
      rw [Planner.resolvedInputErrors, resolved_saved ⟨split, recipe, found, declared⟩ held]
      exact member
    have about := validateBindingValue_about message member
    by_contra other
    exact cleanly message reported ⟨other, .inr ⟨key, saved, same ▸ about.1⟩⟩
  · intro accepted message member blamed
    rcases List.mem_append.mp member with layered | resolved
    · obtain ⟨layer, _, listed⟩ := List.mem_flatMap.mp layered
      obtain ⟨key, _, wrong⟩ := List.mem_flatMap.mp listed
      obtain ⟨present, named⟩ := bindingKeyErrors_input message wrong
      obtain ⟨saved, inside, same⟩ := blamed.2.resolve_left present
      cases named.symm.trans same
      rw [(bindingKeyErrors_saved selects valid clean inside).1] at wrong
      cases wrong
    · obtain ⟨_, listed, wrong⟩ := List.mem_flatMap.mp resolved
      obtain ⟨⟨recipeId, inputId, declaration⟩, declared, rfl⟩ := List.mem_map.mp listed
      rw [Planner.resolvedInputErrors] at wrong
      split at wrong
      next value supplied =>
        obtain ⟨named, present⟩ := validateBindingValue_about message wrong
        obtain ⟨key, saved, same⟩ := blamed.2.resolve_left present
        obtain rfl : makeExecutionInputId recipeId inputId = key :=
          Json.string.inj (Option.some.inj (named.symm.trans same))
        obtain ⟨held, found⟩ := Option.isSome_iff_exists.mp (OrderedMap.get?_isSome.mpr saved)
        obtain ⟨otherRecipe, otherInput, other, declares, _, fits⟩ :=
          (bindingKeyErrors_saved selects valid clean saved).2 held found
        obtain ⟨rfl, rfl⟩ := Review.input_of_key declares.1 rfl
        obtain ⟨_, recipe, known, taken⟩ := Review.mem_declaredInputs.mp declared
        obtain ⟨_, _, rfl⟩ := declares.unique ⟨declares.1, recipe, known, taken⟩
        cases (resolved_saved declares found).symm.trans supplied
        exact blamed.1 ((validateBindingValue_host (absolute _ _ known _ _ taken) fits).mpr
          (accepted _ _ found _ _ _ declares) message wrong)
      next missing =>
        split_ifs at wrong with required
        · have absent := rawBinding_present selects clean declared required
          exact absent (Option.map_eq_none_iff.mp missing)
        · cases wrong

end

theorem selects_expandRecipeDependencies {selectedRecipes : List String}
    (quiet : (Planner.expandRecipeDependencies recipes selectedRecipes).2 = []) :
    Selects recipes selectedRecipes (Planner.expandRecipeDependencies recipes selectedRecipes).1 :=
  mem_expandRecipeDependencies quiet

/-- A saved configuration without diagnostics has no binding error in planning exactly where its
required lists are filled and its paths lie below prefixes that planning recognizes. -/
theorem plansCleanly_iff
    (loaded : ∀ recipeId recipe, recipes.get? recipeId = some recipe → ∀ inputId declaration,
      recipe.inputs.get? inputId = some declaration →
        Authored.validateInputDeclaration inputId declaration = .ok ())
    (selects : Selects recipes configuration.selectedRecipes expandedRecipeRefs)
    (valid : configuration.KeysValid)
    (validated : validateWithRecipes recipes configuration (.ok devicePlan) = []) :
    PlansCleanly host recipes configuration devicePlan expandedRecipeRefs ↔
      ∀ key value, configuration.bindings.get? key = some value →
        ∀ recipeId inputId declaration, Declares recipes key recipeId inputId declaration →
          Accepted declaration value :=
  plansCleanly_iff_of_clean selects valid (clean_of_validated validated)
    fun recipeId recipe found inputId declaration declared =>
      Authored.isAbsolute_of_validated (loaded recipeId recipe found inputId declaration declared)

end

def copyRecipe : Authored.Recipe where
  id := "roms"
  recipeDependencies := []
  inputs := .ofList
    [("destination", ⟨"device_path", true, false, .null, ⟨false, [], none, ["/"]⟩, []⟩)]
  config := none
  artifacts := .empty
  artifactGroups := .empty
  steps := []

def copyRecipes : OrderedMap String Authored.Recipe := .ofList [("roms", copyRecipe)]

def savedCopy (destination : String) : UserConfiguration where
  schemaVersion := 1
  kind := "user_configuration"
  id := "sample"
  name := "Sample"
  devicePlan := "base"
  selectedRecipes := ["roms"]
  bindings := .ofList [("roms/destination", .string destination)]
  compatibility := none
  extensions := .empty
  unsupportedExtensions := []

def bareHost : Host := ⟨fun _ => none, fun _ => none, none, none, id⟩

theorem loaded_copyRecipes : ∀ recipeId recipe, copyRecipes.get? recipeId = some recipe →
    ∀ inputId declaration, recipe.inputs.get? inputId = some declaration →
      Authored.validateInputDeclaration inputId declaration = .ok () := by
  intro recipeId recipe found inputId declaration declared
  have recipes : (recipeId, recipe) ∈ [("roms", copyRecipe)] := OrderedMap.get?_eq_some.mp found
  cases List.mem_singleton.mp recipes
  have inputs := OrderedMap.get?_eq_some.mp declared
  cases List.mem_singleton.mp inputs
  rfl

theorem selects_copyRecipes : Selects copyRecipes ["roms"] ["roms"] :=
  @selects_expandRecipeDependencies copyRecipes ["roms"] rfl

theorem keysValid_savedCopy (destination : String) : (savedCopy destination).KeysValid := by
  intro key member
  cases List.mem_singleton.mp member
  exact show validateBindingKey "roms/destination" = .ok () by rfl

theorem plansCleanly_iff_sample :
    PlansCleanly bareHost copyRecipes (savedCopy "/") .empty ["roms"] ↔
      ∀ key value, (savedCopy "/").bindings.get? key = some value →
        ∀ recipeId inputId declaration, Declares copyRecipes key recipeId inputId declaration →
          Accepted declaration value :=
  plansCleanly_iff loaded_copyRecipes selects_copyRecipes (keysValid_savedCopy "/") rfl

theorem not_plansCleanly_root : ¬ ∀ (host : Host) (recipes : OrderedMap String Authored.Recipe)
    (configuration : UserConfiguration) (devicePlan : OrderedMap String Json)
    (expandedRecipeRefs : List String),
    (∀ recipeId recipe, recipes.get? recipeId = some recipe → ∀ inputId declaration,
      recipe.inputs.get? inputId = some declaration →
        Authored.validateInputDeclaration inputId declaration = .ok ()) →
    Selects recipes configuration.selectedRecipes expandedRecipeRefs → configuration.KeysValid →
    validateWithRecipes recipes configuration (.ok devicePlan) = [] →
      PlansCleanly host recipes configuration devicePlan expandedRecipeRefs := by
  intro every
  have cleanly := every bareHost copyRecipes (savedCopy "/sdcard/ROMs") .empty ["roms"]
    loaded_copyRecipes selects_copyRecipes (keysValid_savedCopy _) rfl
  refine cleanly _ (.head _) ⟨?_, .inr ⟨"roms/destination", .head _, rfl⟩⟩
  exact show "binding_validation_failed" ∉ hostCheckCodes by decide

end EmuChef.Configuration
