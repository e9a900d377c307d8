import EmuChef.Planner.Resolution

/-! The destinations of the copies of one plan, and when no two of them overlap. -/

namespace EmuChef.Planner

open Authored (AppDefinition)
open TextPath

def pathText (names : List (List Char)) : List Char := names.flatMap ('/' :: ·)

def isPlain (path : String) : Bool :=
  match parts path with
  | [] :: names => !names.isEmpty && names.all isName
  | _ => false

def aliasComponents : List (List Component) :=
  [[.rootDir, .normal "sdcard"], [.rootDir, .normal "storage", .normal "self", .normal "primary"]]

def sharedStorageComponents : List Component :=
  [.rootDir, .normal "storage", .normal "emulated", .normal "0"]

def rewriteAlias (path : List Component) : List Component :=
  match aliasComponents.findSome? fun lead => Split.stripLead lead path with
  | some rest => sharedStorageComponents ++ rest
  | none => path

def resolveComponent (passed : List Component) : Component → List Component
  | .parentDir =>
      match passed.getLast? with
      | some (.normal _) => passed.dropLast
      | some .rootDir => passed
      | _ => passed ++ [.parentDir]
  | other => passed ++ [other]

/-- The path that a device path stands for: aliases of the shared storage rewritten, empty and `.`
components dropped and `..` resolved lexically. -/
def canonicalPath (path : String) : List Component :=
  (rewriteAlias ((components path).filter fun component => component ≠ .curDir)).foldl
    resolveComponent []

def PathsOverlap (first second : String) : Prop :=
  canonicalPath first <+: canonicalPath second ∨ canonicalPath second <+: canonicalPath first

instance (first second : String) : Decidable (PathsOverlap first second) :=
  inferInstanceAs (Decidable (_ ∨ _))

theorem eq_of_splitOn {text first : List Char} {rest : List (List Char)}
    (split : text.splitOn '/' = first :: rest) : text = first ++ pathText rest := by
  induction text generalizing first rest with
  | nil =>
      obtain ⟨rfl, rfl⟩ : [] = first ∧ [] = rest := by simpa using split
      rfl
  | cons letter text ih =>
      obtain ⟨head, tail, inner⟩ := SlashPath.exists_splitOn_eq_cons '/' text
      rw [SlashPath.splitOn_cons, inner] at split
      by_cases slash : letter = '/'
      · obtain ⟨rfl, rfl⟩ : [] = first ∧ head :: tail = rest := by simpa [slash] using split
        simp [pathText, slash, ih inner]
      · obtain ⟨rfl, rfl⟩ : letter :: head = first ∧ tail = rest := by simpa [slash] using split
        simp [ih inner]

variable {names : List (List Char)}

theorem splitOn_pathText (clean : ∀ name ∈ names, '/' ∉ name)
    {first : List Char} (cleanFirst : '/' ∉ first) :
    (first ++ pathText names).splitOn '/' = first :: names := by
  induction names generalizing first with
  | nil => simpa [pathText] using SlashPath.splitOn_eq_singleton '/' cleanFirst
  | cons name rest ih =>
      have split : first ++ pathText (name :: rest) = first ++ '/' :: (name ++ pathText rest) := rfl
      rw [split, SlashPath.splitOn_append_cons, SlashPath.splitOn_eq_singleton '/' cleanFirst,
        ih (fun other member => clean other (by simp [member])) (clean name (by simp))]
      rfl

theorem exists_names_of_isPlain {path : String} (plain : isPlain path = true) :
    ∃ names : List (List Char), names ≠ [] ∧ (∀ name ∈ names, isName name = true ∧ '/' ∉ name) ∧
      path.toList = pathText names := by
  unfold isPlain at plain
  split at plain
  next names divided =>
    simp only [Bool.and_eq_true, Bool.not_eq_true', List.isEmpty_eq_false_iff, List.all_eq_true]
      at plain
    have divided : path.toList.splitOn '/' = [] :: names := divided
    refine ⟨names, plain.1, fun name member => ⟨plain.2 name member, ?_⟩, eq_of_splitOn divided⟩
    exact SlashPath.notMem_of_mem_splitOn '/' (divided ▸ List.mem_cons_of_mem _ member)
  next => exact nomatch plain

theorem components_of_pathText {path : String} (filled : names ≠ [])
    (named : ∀ name ∈ names, isName name = true ∧ '/' ∉ name) (text : path.toList = pathText names) :
    components path = .rootDir :: names.map fun name => .normal (String.ofList name) := by
  have split : parts path = [] :: names := by
    rw [parts, text]
    exact splitOn_pathText (fun name member => (named name member).2) List.not_mem_nil
  have absolute : path.toList.head? = some '/' := by
    cases names with
    | nil => exact absurd rfl filled
    | cons name rest => simp [text, pathText]
  have kept : (names.filterMap fun part =>
      if part = [] ∨ part = ['.'] then none
      else if part = ['.', '.'] then some Component.parentDir
      else some (Component.normal (String.ofList part))) =
      names.map fun part => .normal (String.ofList part) := by
    rw [← List.filterMap_eq_map]
    refine List.filterMap_congr fun part member => ?_
    have isName := (named part member).1
    simp only [TextPath.isName, Bool.and_eq_true, Bool.not_eq_true', List.isEmpty_eq_false_iff,
      decide_eq_true_eq, ne_eq] at isName
    simp [isName]
  simp [components, absolute, split, kept]

theorem stripLead_map {α β : Type} [DecidableEq α] [DecidableEq β] {image : α → β}
    (injective : Function.Injective image) (lead text : List α) :
    Split.stripLead (lead.map image) (text.map image) =
      (Split.stripLead lead text).map (List.map image) := by
  induction lead generalizing text with
  | nil => simp [Split.stripLead]
  | cons first lead ih =>
      cases text with
      | nil => simp [Split.stripLead]
      | cons letter text =>
          by_cases same : first = letter
          · simp [Split.stripLead, same, ih]
          · simp [Split.stripLead, same, injective.ne same]

theorem belowAlias_pathText {names lead : List (List Char)}
    (clean : ∀ name ∈ names, '/' ∉ name) (cleanLead : ∀ name ∈ lead, '/' ∉ name) :
    belowAlias (pathText names) (pathText lead) =
      (Split.stripLead lead names).map pathText := by
  have splitLead : (pathText lead).splitOn '/' = [] :: lead :=
    splitOn_pathText cleanLead List.not_mem_nil
  have splitNames : (pathText names).splitOn '/' = [] :: names := splitOn_pathText clean List.not_mem_nil
  cases found : Split.stripLead lead names with
  | some more =>
      obtain rfl := Split.stripLead_eq_some.mp found
      have text : pathText (lead ++ more) = pathText lead ++ pathText more := by simp [pathText]
      rw [belowAlias, text, Split.stripLead_append]
      cases more with
      | nil => rfl
      | cons name rest => rfl
  | none =>
      rw [belowAlias]
      split
      next stripped =>
        have text := Split.stripLead_eq_some.mp stripped
        rw [text, List.append_nil, splitLead] at splitNames
        obtain rfl : lead = names := by simpa using splitNames
        have whole := Split.stripLead_append lead []
        rw [List.append_nil, found] at whole
        exact nomatch whole
      next rest stripped =>
        have text := Split.stripLead_eq_some.mp stripped
        rw [text, SlashPath.splitOn_append_cons, splitLead] at splitNames
        obtain rfl : lead ++ rest.splitOn '/' = names := by simpa using splitNames
        rw [Split.stripLead_append] at found
        exact nomatch found
      next => rfl

def aliasNames : List (List (List Char)) :=
  ["sdcard".toList] :: ["storage".toList, "self".toList, "primary".toList] :: []

def sharedStorageNames : List (List Char) := ["storage".toList, "emulated".toList, "0".toList]

def rewriteNames (names : List (List Char)) : List (List Char) :=
  match aliasNames.findSome? fun lead => Split.stripLead lead names with
  | some rest => sharedStorageNames ++ rest
  | none => names

def normalName (name : List Char) : Component := .normal (String.ofList name)

theorem normalName_injective : Function.Injective normalName := fun _ _ same =>
  String.ofList_injective (Component.normal.inj same)

theorem findSome?_map_map {α β γ δ : Type} (values : List α) (image : α → β)
    (decide : β → Option δ) (found : α → Option γ) (out : γ → δ)
    (agree : ∀ value ∈ values, decide (image value) = (found value).map out) :
    (values.map image).findSome? decide = (values.findSome? found).map out := by
  induction values with
  | nil => rfl
  | cons value rest ih =>
      have first := agree value (by simp)
      have later := ih fun other member => agree other (by simp [member])
      cases inner : found value with
      | none => simp [first, inner, later]
      | some result => simp [first, inner]

theorem canonicalSharedStorageAlias_of_names {path : String}
    (named : ∀ name ∈ names, isName name = true ∧ '/' ∉ name)
    (text : path.toList = pathText names) :
    (canonicalSharedStorageAlias path).toList = pathText (rewriteNames names) := by
  have clean : ∀ lead ∈ aliasNames, ∀ name ∈ lead, '/' ∉ name := by decide
  have aliases : storageAliases = aliasNames.map pathText := by decide
  have found := findSome?_map_map aliasNames pathText (belowAlias (pathText names))
    (fun lead => Split.stripLead lead names) pathText fun lead member =>
      belowAlias_pathText (fun name member => (named name member).2) (clean lead member)
  rw [canonicalSharedStorageAlias, rewriteNames, text, aliases, found]
  cases aliasNames.findSome? fun lead => Split.stripLead lead names with
  | none => exact text
  | some rest =>
      have root : sharedStorageRoot = pathText sharedStorageNames := by decide
      simp [root, pathText]

theorem rewriteNames_named (named : ∀ name ∈ names, isName name = true ∧ '/' ∉ name) :
    ∀ name ∈ rewriteNames names, isName name = true ∧ '/' ∉ name := by
  intro name member
  rw [rewriteNames] at member
  split at member
  next rest found =>
    obtain ⟨lead, _, stripped⟩ := List.exists_of_findSome?_eq_some found
    rcases List.mem_append.mp member with root | rest
    · have shared : ∀ name ∈ sharedStorageNames, isName name = true ∧ '/' ∉ name := by decide
      exact shared name root
    · exact named name (Split.stripLead_eq_some.mp stripped ▸ List.mem_append_right _ rest)
  next => exact named name member

theorem rewriteNames_filled (filled : names ≠ []) : rewriteNames names ≠ [] := by
  rw [rewriteNames]
  split
  · simp [sharedStorageNames]
  · exact filled

theorem foldl_resolveComponent {path : List Component} (clean : Component.parentDir ∉ path)
    (passed : List Component) : path.foldl resolveComponent passed = passed ++ path := by
  induction path generalizing passed with
  | nil => simp
  | cons component path ih =>
      obtain ⟨other, clean⟩ := not_or.mp (List.mem_cons.not.mp clean)
      rw [List.foldl_cons, ih clean]
      cases component with
      | parentDir => exact absurd rfl other
      | rootDir => simp [resolveComponent]
      | curDir => simp [resolveComponent]
      | normal name => simp [resolveComponent]

theorem canonicalPath_of_names {path : String} (filled : names ≠ [])
    (named : ∀ name ∈ names, isName name = true ∧ '/' ∉ name) (text : path.toList = pathText names) :
    canonicalPath path = .rootDir :: (rewriteNames names).map normalName := by
  have aliases : aliasComponents = aliasNames.map fun lead => .rootDir :: lead.map normalName := by
    decide
  have found := findSome?_map_map aliasNames (fun lead => Component.rootDir :: lead.map normalName)
    (fun lead => Split.stripLead lead (.rootDir :: names.map normalName))
    (fun lead => Split.stripLead lead names) (List.map normalName) fun lead _ => by
      simpa [Split.stripLead] using stripLead_map normalName_injective lead names
  have rewritten : rewriteAlias (.rootDir :: names.map normalName) =
      .rootDir :: (rewriteNames names).map normalName := by
    rw [rewriteAlias, rewriteNames, aliases, found]
    cases aliasNames.findSome? fun lead => Split.stripLead lead names with
    | none => rfl
    | some rest => simp [sharedStorageComponents, sharedStorageNames, normalName]
  have kept : (Component.rootDir :: names.map normalName).filter
      (fun component => component ≠ .curDir) = .rootDir :: names.map normalName := by
    rw [List.filter_eq_self]
    simp [normalName]
  rw [canonicalPath, components_of_pathText filled named text]
  change (rewriteAlias ((Component.rootDir :: names.map normalName).filter _)).foldl _ _ = _
  rw [kept, rewritten, foldl_resolveComponent (by simp [normalName]), List.nil_append]

theorem devicePathsOverlap_iff {first second : String} (plainFirst : isPlain first = true)
    (plainSecond : isPlain second = true) :
    devicePathsOverlap first second = true ↔ PathsOverlap first second := by
  have canonical : ∀ path, isPlain path = true →
      components (canonicalSharedStorageAlias path) = canonicalPath path := by
    intro path plain
    obtain ⟨names, filled, named, text⟩ := exists_names_of_isPlain plain
    rw [canonicalPath_of_names filled named text]
    exact components_of_pathText (rewriteNames_filled filled) (rewriteNames_named named)
      (canonicalSharedStorageAlias_of_names named text)
  rw [devicePathsOverlap, canonical first plainFirst, canonical second plainSecond]
  simp only [Bool.or_eq_true, List.isPrefixOf_iff_prefix]
  exact Or.comm

section

variable (host : Host) (input : PlannerInput) (appDefinitions : List AppDefinition)
  (recipe : Authored.Recipe) (step : Authored.Step)

def boundText (reference : String) : Option String :=
  match parseReference reference with
  | some (.input targetId) =>
      (emitExecutionInput host input.recipeMap (input.effectiveBindings host)
        (makeExecutionInputId recipe.id targetId)).bind fun found =>
          (Executor.projectRuntimeValue found.value).asStr
  | _ => none

def authoredDestination : Option String :=
  match step.params.get? "dest" with
  | some (.literal value) => value.asStr
  | some (.appTarget targetId) =>
      ((stepApp (appTable appDefinitions) step).bind fun app => resolveTarget app targetId).map
        ResolvedTarget.path
  | some (.ref reference) => boundText host input recipe reference
  | none => none

/-- The planner compares destinations that are not bound through an input, and finds every overlap
between those that have no empty name, no `.` and no `..`. -/
def Compared (destination : String) : Prop :=
  (∀ reference, step.params.get? "dest" ≠ some (.ref reference)) ∧ isPlain destination = true

end

section

open Executor (ExecutionState resolveRuntimeRef resolveParam)

def emittedDestination (plan : ExecutionPlan) (step : ExecutionStep) : Option String :=
  (step.params.get? "dest").bind fun value =>
    match resolveParam (.fromPlan plan) value with
    | .ok content => content.asStr
    | .error _ => none

theorem input_of_resolves_fromPlan {plan : ExecutionPlan} {refValue : String} {content : Json}
    (resolved : resolveRuntimeRef (.fromPlan plan) refValue = .ok content) :
    ∃ inputId value, refValue = "inputs." ++ inputId ∧
      (ExecutionState.fromPlan plan).inputs.get? inputId = some value ∧
      content = Executor.projectRuntimeValue value := by
  unfold resolveRuntimeRef at resolved
  split at resolved
  next inputId stripped =>
    have text := Split.stripLead_eq_some.mp stripped
    unfold Executor.resolveInputRef at resolved
    split at resolved
    next value held =>
      refine ⟨String.ofList inputId, value, String.toList_injective ?_, held,
        (Except.ok.inj resolved).symm⟩
      rw [text, String.toList_append, String.toList_ofList, String.toList_ofList]
      rfl
    next => exact nomatch resolved
  next =>
    split at resolved
    next =>
      unfold Executor.resolveArtifactRef at resolved
      split at resolved
      next => exact nomatch resolved
      next =>
        split at resolved
        next => exact nomatch resolved
        next artifact held =>
          have listed := OrderedMap.mem_of_get?_ofList held
          obtain ⟨_, _, same⟩ := List.mem_map.mp listed
          obtain ⟨_, rfl⟩ := Prod.mk.inj same
          simp [Executor.resolveArtifactField] at resolved
    next =>
      split at resolved
      next =>
        unfold Executor.resolveStepRef at resolved
        split at resolved
        next => exact nomatch resolved
        next => simp [ExecutionState.fromPlan] at resolved
      next => exact nomatch resolved

theorem copySpec {step : Authored.Step} (copies : step.typeName = "copy_files") :
    ∃ spec, stepSpecFor step.typeName = some spec ∧ "dest" ∈ spec.params.map Prod.fst ∧
      "dest" ∉ spec.defaults.map Prod.fst := by
  rw [copies]
  decide

theorem dest_mem_keptParams {step : Authored.Step} {value : ParamValue}
    (copies : step.typeName = "copy_files") (held : step.params.get? "dest" = some value) :
    ("dest", value) ∈ keptParams step := by
  obtain ⟨spec, found, listed, other⟩ := copySpec copies
  have plain : ¬ (isAppPermissionStep step = true ∨ (lifecycleApp step).isSome ∨
      isArtifactStep step.typeName = true) := by
    simp [isAppPermissionStep, lifecycleApp, isLifecycleStep, isArtifactStep, copies]
  rw [keptParams, if_neg plain, found, Option.map_some, Option.getD_some, mem_knownParams,
    defaultParam_other found other]
  exact ⟨listed, held⟩

theorem get?_dest {apps : OrderedMap String AppDefinition} {recipe : Authored.Recipe}
    {step : Authored.Step} {usage : ResolvedStepUsage} {params : OrderedMap String ExecutionParamValue}
    (copies : step.typeName = "copy_files")
    (normalized : normalizeStepParamsForExecution apps recipe step usage = .ok params)
    {value : ExecutionParamValue} : params.get? "dest" = some value ↔
      ∃ authored, step.params.get? "dest" = some authored ∧
        normalizeParam recipe step usage.dest authored = .ok value := by
  obtain ⟨spec, found, listed, other⟩ := copySpec copies
  have specNormalized : normalizeSpecParams recipe step spec usage = .ok params := by
    simpa [normalizeStepParamsForExecution, isAppPermissionStep, lifecycleApp, isLifecycleStep,
      isArtifactStep, copies, copies ▸ found] using normalized
  have noKind : ("dest", value) ∉ destKindParams usage.destKind := by
    cases usage.destKind <;> simp [destKindParams]
  rw [get?_normalizeSpecParams found specNormalized]
  simp only [noKind, or_false, mem_knownParams, listed, true_and, defaultParam_other found other]

end

section

variable {validate : AppDefinition → List AppDiagnostic} {recipe : Authored.Recipe}
  {recipeId : String} {step : Authored.Step} {app : Option AppDefinition}
  {bindings : Option (OrderedMap String Json)}

theorem target_of_paramUse {entry : String × ParamValue} {found : String × ResolvedTarget}
    (silent : (paramTargetUse validate recipe recipeId step app bindings entry.1 entry.2).errors = [])
    (target : (paramTargetUse validate recipe recipeId step app bindings entry.1 entry.2).target =
      some found) :
    entry = ("dest", .appTarget found.1) ∧ app.bind (resolveTarget · found.1) = some found.2 := by
  obtain ⟨name, value⟩ := entry
  cases value with
  | ref reference => exact nomatch target
  | literal content =>
      simp only [paramTargetUse] at silent target
      split at target
      next tagged => simp [tagged] at silent
      next => exact nomatch target
  | appTarget targetId =>
      simp only [paramTargetUse] at silent target
      split at target
      next => exact nomatch target
      next fits =>
        obtain ⟨_, named⟩ := not_or.mp fits
        obtain rfl : name = "dest" := not_not.mp named
        split at target
        next resolved done =>
          obtain rfl : (targetId, resolved) = found := by simpa using target
          refine ⟨rfl, ?_⟩
          unfold resolveStepTarget at done
          split at done
          next => exact nomatch done
          next =>
            split at done
            next => exact nomatch done
            next definition =>
              split at done
              next => exact nomatch done
              next =>
                split at done
                next other held => exact Except.ok.inj done ▸ held
                next => exact nomatch done
        next => exact nomatch target

theorem silent_paramUses
    (silent : stepUsageErrors validate recipe recipeId step app bindings = []) :
    ∀ entry ∈ step.params.entries,
      (paramTargetUse validate recipe recipeId step app bindings entry.1 entry.2).errors = [] := by
  simp only [stepUsageErrors, List.append_eq_nil_iff, List.flatMap_eq_nil_iff] at silent
  intro entry listed
  exact silent.2.2.1 _ (List.mem_map_of_mem listed)

theorem target_of_appTarget {name targetId : String}
    (silent : (paramTargetUse validate recipe recipeId step app bindings name
      (.appTarget targetId)).errors = []) :
    (paramTargetUse validate recipe recipeId step app bindings name
      (.appTarget targetId)).target.isSome := by
  simp only [paramTargetUse] at silent ⊢
  split at silent
  next => exact nomatch silent
  next fits =>
    rw [if_neg fits]
    split at silent
    next resolved done => rfl
    next => exact nomatch silent

theorem resolvedParamTarget_eq
    (silent : stepUsageErrors validate recipe recipeId step app bindings = []) :
    resolvedParamTarget validate recipe recipeId step app bindings =
      match step.params.get? "dest" with
      | some (.appTarget targetId) => (app.bind (resolveTarget · targetId)).map (targetId, ·)
      | _ => none := by
  have each : ∀ found ∈ (paramUses validate recipe recipeId step app bindings).filterMap
      TargetUse.target, step.params.get? "dest" = some (.appTarget found.1) ∧
        app.bind (resolveTarget · found.1) = some found.2 := by
    intro found member
    obtain ⟨use, listed, target⟩ := List.mem_filterMap.mp member
    obtain ⟨entry, inside, rfl⟩ := List.mem_map.mp listed
    obtain ⟨rfl, resolved⟩ := target_of_paramUse (silent_paramUses silent entry inside) target
    exact ⟨OrderedMap.get?_eq_some.mpr inside, resolved⟩
  unfold resolvedParamTarget
  cases last : ((paramUses validate recipe recipeId step app bindings).filterMap
      TargetUse.target).getLast? with
  | some found =>
      obtain ⟨held, resolved⟩ := each found (List.mem_of_getLast? last)
      rw [held]
      simp only [resolved, Option.map_some]
  | none =>
      split
      next targetId held =>
        have inside := OrderedMap.get?_eq_some.mp held
        obtain ⟨found, target⟩ := Option.isSome_iff_exists.mp
          (target_of_appTarget (silent_paramUses silent _ inside))
        have member : found ∈ (paramUses validate recipe recipeId step app bindings).filterMap
            TargetUse.target := List.mem_filterMap.mpr ⟨_, List.mem_map_of_mem inside, target⟩
        rw [List.getLast?_eq_none_iff.mp last] at member
        exact absurd member List.not_mem_nil
      next => rfl

theorem compared_destination (copies : step.typeName = "copy_files")
    (silent : stepUsageErrors validate recipe recipeId step app bindings = []) {path : String}
    (destination : (∃ value, step.params.get? "dest" = some (.literal value) ∧
        value.asStr = some path) ∨ ∃ targetId target, step.params.get? "dest" =
        some (.appTarget targetId) ∧ app.bind (resolveTarget · targetId) = some target ∧
        target.path = path) :
    ∃ name, ⟨recipeId, name, path⟩ ∈
      stepDestinations validate recipe recipeId step app bindings := by
  rcases destination with ⟨value, held, text⟩ | ⟨targetId, target, held, resolved, rfl⟩
  · cases value with
    | string content =>
        obtain rfl : content = path := by simpa [Json.asStr] using text
        exact ⟨"literal_destination", by simp [stepDestinations, copies, held]⟩
    | _ => simp [Json.asStr] at text
  · have last := resolvedParamTarget_eq silent
    rw [held] at last
    simp only [resolved, Option.map_some] at last
    refine ⟨targetId, List.mem_append_left _ (List.mem_map.mpr ⟨(targetId, target), ?_, rfl⟩)⟩
    exact List.mem_of_getLast? last

end

section

open Executor (ExecutionState resolveRuntimeRef resolveParam)

variable {host : Host} {checks : AuthorityChecks} {input : PlannerInput}
  {appDefinitions : List AppDefinition} {mode : PlanningMode} {prepared : Prepared}
  {selected : Finset String} {chosen : Chosen} {ordered : List PlannedStep} {plan : ExecutionPlan}
  {warnings : List PlannerMessage}

def preparedDestinations (checks : AuthorityChecks) (prepared : Prepared)
    (entry : String × Authored.Recipe × Authored.Step) : List DestinationTarget :=
  stepDestinations checks.validateAppDefinition entry.2.1 entry.1 entry.2.2
    (stepApp prepared.apps entry.2.2) (some prepared.inputBindings)

theorem PreparedBy.silent (prepares : PreparedBy host checks input appDefinitions mode prepared) :
    (∀ recipeId recipe step, (recipeId, recipe, step) ∈
        expandedSteps prepared.recipes prepared.expandedRecipeRefs →
      stepUsageErrors checks.validateAppDefinition recipe recipeId step (stepApp prepared.apps step)
        (some prepared.inputBindings) = []) ∧
    destinationOverlapErrors ((expandedSteps prepared.recipes prepared.expandedRecipeRefs).flatMap
      (preparedDestinations checks prepared)) = [] := by
  obtain ⟨usage, resolves, _⟩ := prepares.usage
  simp only [resolveUsage] at resolves
  split at resolves
  next silent =>
    obtain ⟨steps, overlaps⟩ := List.append_eq_nil_iff.mp silent
    refine ⟨?_, overlaps⟩
    intro recipeId recipe step member
    exact List.flatMap_eq_nil_iff.mp steps (recipeId, recipe, step) member
  next => cases resolves

theorem pairwise_of_destinationOverlapErrors {targets : List DestinationTarget}
    (silent : destinationOverlapErrors targets = []) :
    targets.Pairwise fun first second => ¬ devicePathsOverlap first.path second.path = true := by
  induction targets with
  | nil => exact .nil
  | cons first rest ih =>
      obtain ⟨none, later⟩ := List.append_eq_nil_iff.mp silent
      refine .cons ?_ (ih later)
      intro second listed overlap
      have kept : second ∈ rest.filter fun second => devicePathsOverlap first.path second.path :=
        List.mem_filter.mpr ⟨listed, overlap⟩
      rw [List.map_eq_nil_iff.mp none] at kept
      exact absurd kept List.not_mem_nil

theorem devicePathsOverlap_comm (first second : String) :
    devicePathsOverlap first second = devicePathsOverlap second first :=
  Bool.or_comm _ _

theorem related_of_pairwise_flatMap {α : Type} {items : List α} {pieces : α → List DestinationTarget}
    (apart : (items.flatMap pieces).Pairwise fun first second =>
      ¬ devicePathsOverlap first.path second.path = true) {first second : α} (firstIn : first ∈ items)
    (secondIn : second ∈ items) (different : first ≠ second) {target other : DestinationTarget}
    (targetIn : target ∈ pieces first) (otherIn : other ∈ pieces second) :
    ¬ devicePathsOverlap target.path other.path = true := by
  have symmetric : Std.Symm fun first second => ∀ target ∈ pieces first, ∀ other ∈ pieces second,
      ¬ devicePathsOverlap target.path other.path = true := by
    refine ⟨fun _ _ apart target listed other also => ?_⟩
    rw [devicePathsOverlap_comm]
    exact apart other also target listed
  exact (List.pairwise_flatMap.mp apart).2.forall firstIn secondIn different target targetIn other
    otherIn

variable (done : Succeeds host checks input appDefinitions mode prepared selected chosen ordered plan)

include done

theorem Succeeds.inputs_nodup : (plan.inputs.map ExecutionInputValue.id).Nodup := by
  have distinct : chosen.inputIds.Nodup := by
    rw [done.chooses.inputIds]
    exact List.nodup_reverse.mpr (List.nodup_dedup _)
  rw [done.plan_inputs, emitExecutionInputs, List.map_filterMap]
  refine distinct.filterMap ?_
  have named : ∀ inputId id, id ∈ (emitExecutionInput host prepared.recipes prepared.inputBindings
      inputId).map ExecutionInputValue.id → id = inputId := by
    intro inputId id member
    simp only [emitExecutionInput, Option.mem_def, Option.map_eq_some_iff,
      Option.bind_eq_some_iff] at member
    obtain ⟨_, ⟨_, _, _, _, _, _, _, _, rfl⟩, rfl⟩ := member
    rfl
  intro first second id fromFirst fromSecond
  exact (named first id fromFirst).symm.trans (named second id fromSecond)

theorem Succeeds.get?_input {inputId : String} {value : RuntimeValue}
    (listed : inputId ∈ chosen.inputIds) :
    (ExecutionState.fromPlan plan).inputs.get? inputId = some value ↔
      emitExecutionInput host prepared.recipes prepared.inputBindings inputId =
        some ⟨inputId, value⟩ := by
  have distinct : ((plan.inputs.map fun input => (input.id, input.value)).map Prod.fst).Nodup := by
    simpa [Function.comp_def] using done.inputs_nodup
  rw [ExecutionState.fromPlan, OrderedMap.get?_ofList distinct, List.mem_map]
  constructor
  · rintro ⟨⟨_, _⟩, member, same⟩
    obtain ⟨rfl, rfl⟩ := Prod.mk.inj same
    exact (done.mem_plan_inputs.mp member).2
  · intro emitted
    exact ⟨⟨inputId, value⟩, done.mem_plan_inputs.mpr ⟨listed, emitted⟩, rfl⟩

theorem Succeeds.boundText_eq {planned : PlannedStep} {recipe : Authored.Recipe}
    (authored : AuthoredIn prepared.recipes prepared.expandedRecipeRefs selected recipe planned)
    {reference : String} (kept : ("dest", ParamValue.ref reference) ∈ keptParams planned.step) :
    (match resolveRuntimeRef (.fromPlan plan) (normalizeRefForExecution recipe reference) with
      | .ok content => content.asStr
      | .error _ => none) = boundText host input recipe reference := by
  have home := done.recipe_id authored.found
  have unresolved (other : String) (apart : ∀ inputId, other = "inputs." ++ inputId →
      ∀ value, (ExecutionState.fromPlan plan).inputs.get? inputId ≠ some value) :
      (match resolveRuntimeRef (.fromPlan plan) other with
        | .ok content => content.asStr
        | .error _ => none) = none := by
    cases resolved : resolveRuntimeRef (.fromPlan plan) other with
    | error failure => rfl
    | ok content =>
        obtain ⟨inputId, value, same, held, _⟩ := input_of_resolves_fromPlan resolved
        exact absurd held (apart inputId same value)
  unfold boundText normalizeRefForExecution
  cases parsed : parseReference reference with
  | none =>
      refine unresolved reference ?_
      rintro inputId rfl value held
      refine done.not_resolves_unparsed parsed ((resolvesIn_of_read (executionReference_input _)).mpr ?_)
      have listed := OrderedMap.mem_of_get?_ofList held
      obtain ⟨found, member, same⟩ := List.mem_map.mp listed
      exact List.mem_map.mpr ⟨found, member, congrArg Prod.fst same⟩
  | some form =>
      rcases parse_cases parsed with ⟨targetId, rfl⟩ | ⟨_, ⟨targetId, rfl⟩ | ⟨targetId, field, rfl⟩⟩ |
        ⟨targetId, field, rfl, clean⟩
      · have listed := done.inputId_selected authored kept parsed
        rw [← home] at listed
        have read : resolveRuntimeRef (.fromPlan plan)
            ("inputs." ++ makeExecutionInputId recipe.id targetId) =
            Executor.resolveInputRef (.fromPlan plan) ("inputs." ++ makeExecutionInputId recipe.id
              targetId) (makeExecutionInputId recipe.id targetId).toList := by
          rw [resolveRuntimeRef, toList_inputs, Split.stripLead_append]
        simp only [read, Executor.resolveInputRef, String.ofList_toList]
        cases held : (ExecutionState.fromPlan plan).inputs.get?
            (makeExecutionInputId recipe.id targetId) with
        | some value =>
            have emitted := (done.get?_input listed).mp held
            rw [done.prepares.effectiveBindings, done.prepares.recipes] at emitted
            change _ = (emitExecutionInput host (recipeTable input.recipes) _ _).bind _
            rw [emitted, Option.bind_some]
        | none =>
            cases emitted : emitExecutionInput host input.recipeMap (input.effectiveBindings host)
                (makeExecutionInputId recipe.id targetId) with
            | none => rfl
            | some found =>
                obtain ⟨foundId, value⟩ := found
                obtain rfl : foundId = makeExecutionInputId recipe.id targetId := by
                  simp only [emitExecutionInput, Option.map_eq_some_iff,
                    Option.bind_eq_some_iff] at emitted
                  obtain ⟨_, _, _, _, _, _, _, _, same⟩ := emitted
                  exact (ExecutionInputValue.mk.inj same).1.symm
                rw [PlannerInput.recipeMap, ← done.prepares.recipes,
                  ← done.prepares.effectiveBindings] at emitted
                cases held.symm.trans ((done.get?_input listed).mpr emitted)
      · refine unresolved _ ?_
        intro inputId same
        have read := executionReference_input inputId
        rw [← same] at read
        rcases executionReference_step_cases (makeExecutionStepId recipe.id targetId)
          (shorthandOutput recipe targetId) with ⟨_, other⟩ | ⟨_, _, _, _, other⟩
        · cases other.symm.trans read
        · cases other.symm.trans read
      · refine unresolved _ ?_
        intro inputId same
        have read := executionReference_input inputId
        rw [← same] at read
        rcases executionReference_step_cases (makeExecutionStepId recipe.id targetId) field with
          ⟨_, other⟩ | ⟨_, _, _, _, other⟩
        · cases other.symm.trans read
        · cases other.symm.trans read
      · refine unresolved _ ?_
        intro inputId same
        have read := executionReference_input inputId
        rw [← same] at read
        cases (executionReference_artifact _ clean).symm.trans read

theorem Succeeds.emittedDestination_eq {step : ExecutionStep} {planned : PlannedStep}
    {recipe : Authored.Recipe} {usage : ResolvedStepUsage}
    (emitted : EmittedFrom host input prepared selected recipe planned usage step)
    (copies : planned.step.typeName = "copy_files") :
    emittedDestination plan step = authoredDestination host input appDefinitions recipe planned.step := by
  have member := mem_expandedSteps.mpr
    ⟨emitted.authored.listed, emitted.authored.found, emitted.authored.authored⟩
  have silent := done.prepares.silent.1 _ _ _ member
  obtain ⟨capabilities, used⟩ := done.usage emitted
  have dest : usage.dest = (resolvedParamTarget checks.validateAppDefinition recipe planned.recipeId
      planned.step (stepApp prepared.apps planned.step) (some prepared.inputBindings)).map
        fun found => found.2.path := by rw [used]; rfl
  rw [resolvedParamTarget_eq silent] at dest
  have normalizes := @get?_dest prepared.apps recipe planned.step usage step.params copies
    emitted.params
  unfold emittedDestination authoredDestination
  cases held : planned.step.params.get? "dest" with
  | none =>
      have absent : step.params.get? "dest" = none := by
        cases found : step.params.get? "dest" with
        | none => rfl
        | some value =>
            obtain ⟨authored, given, _⟩ := normalizes.mp found
            exact nomatch held.symm.trans given
      rw [absent, Option.bind_none]
  | some authored =>
      cases authored with
      | literal value =>
          rw [normalizes.mpr ⟨_, held, rfl⟩]
          rfl
      | ref reference =>
          rw [normalizes.mpr ⟨_, held, rfl⟩]
          exact done.boundText_eq emitted.authored (dest_mem_keptParams copies held)
      | appTarget targetId =>
          simp only [held] at dest
          simp only [← done.prepares.apps]
          cases target : (stepApp prepared.apps planned.step).bind (resolveTarget · targetId) with
          | some found =>
              have given : usage.dest = some found.path := by rw [dest, target]; rfl
              have normal : normalizeParam recipe planned.step usage.dest (.appTarget targetId) =
                  .ok (textParam found.path) := by simp [normalizeParam, given]
              rw [normalizes.mpr ⟨_, held, normal⟩]
              rfl
          | none =>
              have given : usage.dest = none := by rw [dest, target]; rfl
              have absent : step.params.get? "dest" = none := by
                cases found : step.params.get? "dest" with
                | none => rfl
                | some value =>
                    obtain ⟨authored, other, normal⟩ := normalizes.mp found
                    obtain rfl := Option.some.inj (held.symm.trans other)
                    simp [normalizeParam, given] at normal
              rw [absent, Option.bind_none, Option.map_none]

theorem Succeeds.compares {planned : PlannedStep} {recipe : Authored.Recipe}
    (authored : AuthoredIn prepared.recipes prepared.expandedRecipeRefs selected recipe planned)
    (copies : planned.step.typeName = "copy_files") {destination : String}
    (written : authoredDestination host input appDefinitions recipe planned.step = some destination)
    (compared : Compared planned.step destination) :
    ∃ name, ⟨planned.recipeId, name, destination⟩ ∈
      preparedDestinations checks prepared (planned.recipeId, recipe, planned.step) := by
  have member := mem_expandedSteps.mpr ⟨authored.listed, authored.found, authored.authored⟩
  refine compared_destination copies (done.prepares.silent.1 _ _ _ member) ?_
  unfold authoredDestination at written
  split at written
  next value held => exact .inl ⟨value, held, written⟩
  next targetId held =>
    rw [← done.prepares.apps, Option.map_eq_some_iff] at written
    obtain ⟨target, resolved, same⟩ := written
    exact .inr ⟨targetId, target, held, resolved, same⟩
  next reference held => exact absurd held (compared.1 reference)
  next => exact nomatch written

theorem Succeeds.apart {first second : PlannedStep} {firstRecipe secondRecipe : Authored.Recipe}
    (firstIn : AuthoredIn prepared.recipes prepared.expandedRecipeRefs selected firstRecipe first)
    (secondIn : AuthoredIn prepared.recipes prepared.expandedRecipeRefs selected secondRecipe second)
    (different : first.id ≠ second.id) (firstCopies : first.step.typeName = "copy_files")
    (secondCopies : second.step.typeName = "copy_files") {path other : String}
    (firstAt : authoredDestination host input appDefinitions firstRecipe first.step = some path)
    (secondAt : authoredDestination host input appDefinitions secondRecipe second.step = some other)
    (firstCompared : Compared first.step path) (secondCompared : Compared second.step other) :
    ¬ PathsOverlap path other := by
  obtain ⟨_, firstListed⟩ := done.compares firstIn firstCopies firstAt firstCompared
  obtain ⟨_, secondListed⟩ := done.compares secondIn secondCopies secondAt secondCompared
  have unequal : (first.recipeId, firstRecipe, first.step) ≠
      (second.recipeId, secondRecipe, second.step) := by
    intro same
    obtain ⟨sameRecipe, sameStep⟩ := Prod.mk.inj same
    refine different ?_
    rw [firstIn.qualified, secondIn.qualified, sameRecipe, (Prod.mk.inj sameStep).2]
  rw [← devicePathsOverlap_iff firstCompared.2 secondCompared.2]
  have firstMember := mem_expandedSteps.mpr ⟨firstIn.listed, firstIn.found, firstIn.authored⟩
  have secondMember := mem_expandedSteps.mpr ⟨secondIn.listed, secondIn.found, secondIn.authored⟩
  have pairs := pairwise_of_destinationOverlapErrors done.prepares.silent.2
  have apart := related_of_pairwise_flatMap pairs firstMember secondMember unequal firstListed
    secondListed
  exact apart

omit done

def CopiesApart (plan : ExecutionPlan) : Prop :=
  ∀ first ∈ plan.steps, ∀ second ∈ plan.steps, first.typeName = "copy_files" →
    second.typeName = "copy_files" → first.id ≠ second.id →
    ∀ path ∈ emittedDestination plan first, ∀ other ∈ emittedDestination plan second,
      ¬ PathsOverlap path other

/-- The copies of a plan are apart exactly if those pairs are of which one destination is an input
reference or is not plain. -/
theorem copiesApart_iff
    (success : planExecutionWithAppDefinitions host checks input appDefinitions =
      .ok (.success plan warnings)) :
    CopiesApart plan ↔ ∀ first ∈ plan.steps, ∀ second ∈ plan.steps,
      first.typeName = "copy_files" → second.typeName = "copy_files" → first.id ≠ second.id →
      ∀ firstRecipe firstStep secondRecipe secondStep, Origin input first firstRecipe firstStep →
      Origin input second secondRecipe secondStep →
      ∀ path ∈ authoredDestination host input appDefinitions firstRecipe firstStep,
      ∀ other ∈ authoredDestination host input appDefinitions secondRecipe secondStep,
      ¬ (Compared firstStep path ∧ Compared secondStep other) → ¬ PathsOverlap path other := by
  obtain ⟨prepared, selected, chosen, ordered, done⟩ := succeeds_of_success success
  constructor
  · intro apart first firstIn second secondIn firstCopies secondCopies different firstRecipe firstStep
      secondRecipe secondStep firstOrigin secondOrigin
    obtain ⟨firstPlanned, _, _, _, firstMade⟩ := done.emitted firstIn
    obtain ⟨secondPlanned, _, _, _, secondMade⟩ := done.emitted secondIn
    obtain ⟨rfl, rfl⟩ := done.origin_unique firstMade firstOrigin
    obtain ⟨rfl, rfl⟩ := done.origin_unique secondMade secondOrigin
    intro path pathAt other otherAt _
    rw [← done.emittedDestination_eq firstMade (firstMade.typeName.symm.trans firstCopies)] at pathAt
    rw [← done.emittedDestination_eq secondMade (secondMade.typeName.symm.trans secondCopies)]
      at otherAt
    exact apart first firstIn second secondIn firstCopies secondCopies different _ pathAt _ otherAt
  · intro rest first firstIn second secondIn firstCopies secondCopies different
    obtain ⟨firstPlanned, _, firstRecipe, _, firstMade, firstOrigin⟩ := done.origin firstIn
    obtain ⟨secondPlanned, _, secondRecipe, _, secondMade, secondOrigin⟩ := done.origin secondIn
    have firstType := firstMade.typeName.symm.trans firstCopies
    have secondType := secondMade.typeName.symm.trans secondCopies
    intro path pathAt other otherAt
    rw [done.emittedDestination_eq firstMade firstType] at pathAt
    rw [done.emittedDestination_eq secondMade secondType] at otherAt
    by_cases compared : Compared firstPlanned.step path ∧ Compared secondPlanned.step other
    · refine done.apart firstMade.authored secondMade.authored ?_ firstType secondType pathAt otherAt
        compared.1 compared.2
      rwa [← firstMade.id, ← secondMade.id]
    · exact rest first firstIn second secondIn firstCopies secondCopies different _ _ _ _ firstOrigin
        secondOrigin path pathAt other otherAt compared

def nestedCopies : PlannerInput :=
  plainInput (plainRecipe "games"
    [("folder", ⟨"directory", true, false, .null, ⟨false, [], none, []⟩, []⟩),
      ("target", ⟨"device_path", false, false, .null, ⟨false, [], none, []⟩, []⟩)] []
    [plainStep "all" "copy_files" []
        [("source", .ref "inputs.folder"), ("dest", .ref "inputs.target")],
      plainStep "saves" "copy_files" []
        [("source", .ref "inputs.folder"), ("dest", .literal (.string "/sdcard/games/saves"))]])
    [("games/folder", .string "/games"), ("games/target", .string "/sdcard/games")]

theorem copiesApart_iff_sample : ∃ plan ∈ plannedPlan
    (planExecutionWithAppDefinitions bareHost lenientChecks nestedCopies []),
    (CopiesApart plan ↔ ∀ first ∈ plan.steps, ∀ second ∈ plan.steps,
      first.typeName = "copy_files" → second.typeName = "copy_files" → first.id ≠ second.id →
      ∀ firstRecipe firstStep secondRecipe secondStep,
      Origin nestedCopies first firstRecipe firstStep →
      Origin nestedCopies second secondRecipe secondStep →
      ∀ path ∈ authoredDestination bareHost nestedCopies [] firstRecipe firstStep,
      ∀ other ∈ authoredDestination bareHost nestedCopies [] secondRecipe secondStep,
      ¬ (Compared firstStep path ∧ Compared secondStep other) → ¬ PathsOverlap path other) := by
  have planned : (plannedPlan (planExecutionWithAppDefinitions bareHost lenientChecks
      nestedCopies [])).isSome = true := by decide +kernel
  obtain ⟨plan, planned⟩ := Option.isSome_iff_exists.mp planned
  obtain ⟨warnings, success⟩ := plannedPlan_eq_some.mp planned
  exact ⟨plan, planned, copiesApart_iff success⟩

theorem nestedCopies_overlap : ∃ plan ∈ plannedPlan
    (planExecutionWithAppDefinitions bareHost lenientChecks nestedCopies []),
      ¬ CopiesApart plan := by
  have overlapping : ∃ plan ∈ plannedPlan
      (planExecutionWithAppDefinitions bareHost lenientChecks nestedCopies []),
      ∃ first ∈ plan.steps, ∃ second ∈ plan.steps, first.typeName = "copy_files" ∧
        second.typeName = "copy_files" ∧ first.id ≠ second.id ∧
        ∃ path ∈ emittedDestination plan first, ∃ other ∈ emittedDestination plan second,
          PathsOverlap path other := by
    decide +kernel
  obtain ⟨plan, planned, first, firstIn, second, secondIn, firstCopies, secondCopies, different,
    path, pathAt, other, otherAt, overlap⟩ := overlapping
  refine ⟨plan, planned, fun apart => ?_⟩
  exact apart first firstIn second secondIn firstCopies secondCopies different path pathAt other
    otherAt overlap

end

end EmuChef.Planner
