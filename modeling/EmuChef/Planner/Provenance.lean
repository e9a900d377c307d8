import EmuChef.Planner.Usage

/-! The walk over the producers of a copy source finds exactly the Apps whose artifacts contribute
to it. -/

namespace EmuChef.Planner

variable {recipe : Authored.Recipe} {reference other artifactId stepId app : String}
  {references more visited later apps others : List String} {producer : Authored.Step}

def RuntimeRef.producerId? : RuntimeRef → Option String
  | .stepShorthand targetId | .stepOutput targetId _ => some targetId
  | _ => none

def producerId? (reference : String) : Option String :=
  (parseReference reference).bind RuntimeRef.producerId?

def Lists (step : Authored.Step) (name item : String) : Prop :=
  ∃ items, step.params.get? name = some (.literal (.array items)) ∧ .string item ∈ items

def Selects (recipe : Authored.Recipe) (step : Authored.Step) (artifactId : String) : Prop :=
  Lists step "artifacts" artifactId ∨
    ∃ groupId members, Lists step "artifact_groups" groupId ∧
      recipe.artifactGroups.get? groupId = some members ∧ artifactId ∈ members

inductive Contributes (recipe : Authored.Recipe) (artifactId : String) : String → Prop
  | artifact {reference field : String}
      (named : parseReference reference = some (.artifactField artifactId field)) :
      Contributes recipe artifactId reference
  | param {reference stepId name other : String} {producer : Authored.Step}
      (followed : producerId? reference = some stepId)
      (found : findStep recipe stepId = some producer)
      (used : (name, ParamValue.ref other) ∈ producer.params.entries)
      (rest : Contributes recipe artifactId other) :
      Contributes recipe artifactId reference
  | selection {reference stepId : String} {producer : Authored.Step}
      (followed : producerId? reference = some stepId)
      (found : findStep recipe stepId = some producer)
      (extracts : producer.typeName = "extract_artifacts")
      (chosen : Selects recipe producer artifactId) :
      Contributes recipe artifactId reference

def AppContributes (recipe : Authored.Recipe) (app reference : String) : Prop :=
  ∃ artifactId source, Contributes recipe artifactId reference ∧
    recipe.artifacts.get? artifactId = some (.appArtifact source) ∧ source.appRef = app

theorem mem_paramRefs {step : Authored.Step} :
    other ∈ paramRefs step ↔ ∃ name, (name, ParamValue.ref other) ∈ step.params.entries := by
  have same (value : ParamValue) : value.reference? = some other ↔ value = .ref other := by
    cases value <;> simp [ParamValue.reference?]
  simp [paramRefs, OrderedMap.values, same]

theorem mem_stringList {step : Authored.Step} {name item : String} :
    item ∈ stringList (step.params.get? name) ↔ Lists step name item := by
  unfold stringList Lists
  split
  · next items found => simp [found, Json.asStr_eq_some]
  · next missing =>
      simp only [List.not_mem_nil, false_iff]
      rintro ⟨items, found, -⟩
      exact missing items found

theorem mem_selectedArtifacts {step : Authored.Step} :
    artifactId ∈ selectedArtifacts recipe step ↔ Selects recipe step artifactId := by
  simp only [selectedArtifacts, expandArtifactSelection, List.mem_append, List.mem_flatMap,
    mem_stringList, Selects]
  refine or_congr_right ⟨?_, ?_⟩
  · rintro ⟨groupId, listed, member⟩
    cases found : recipe.artifactGroups.get? groupId with
    | none => simp [found] at member
    | some members => exact ⟨groupId, members, listed, found, by simpa [found] using member⟩
  · rintro ⟨groupId, members, listed, found, member⟩
    exact ⟨groupId, listed, by simpa [found] using member⟩

theorem mem_artifactApp :
    app ∈ sourceAppRefs.artifactApp recipe artifactId ↔
      ∃ source, recipe.artifacts.get? artifactId = some (.appArtifact source) ∧
        source.appRef = app := by
  unfold sourceAppRefs.artifactApp
  split
  · next source found => simp [found, eq_comm]
  · next missing =>
      simp only [List.not_mem_nil, false_iff]
      rintro ⟨source, found, -⟩
      exact missing source found

def extractedApps (recipe : Authored.Recipe) (producer : Authored.Step) : List String :=
  if producer.typeName = "extract_artifacts" then
    (selectedArtifacts recipe producer).flatMap (sourceAppRefs.artifactApp recipe)
  else []

theorem mem_extractedApps :
    app ∈ extractedApps recipe producer ↔ producer.typeName = "extract_artifacts" ∧
      ∃ artifactId, Selects recipe producer artifactId ∧
        ∃ source, recipe.artifacts.get? artifactId = some (.appArtifact source) ∧
          source.appRef = app := by
  unfold extractedApps
  split
  · next extracts =>
      simp only [List.mem_flatMap, mem_selectedArtifacts, mem_artifactApp, extracts, true_and]
  · next other => simp [other]

/-- The recursion over a list of references as the source runs it, without a bound on its depth:
what it returns and the steps visited afterwards. -/
inductive Walks (recipe : Authored.Recipe) :
    List String → List String → List String → List String → Prop
  | done {visited : List String} : Walks recipe visited [] [] visited
  | artifact {visited later references apps : List String} {reference artifactId field : String}
      (named : parseReference reference = some (.artifactField artifactId field))
      (rest : Walks recipe visited references apps later) :
      Walks recipe visited (reference :: references)
        (sourceAppRefs.artifactApp recipe artifactId ++ apps) later
  | plain {visited later references apps : List String} {reference : String}
      (unnamed : producerId? reference = none)
      (bare : ∀ artifactId field, parseReference reference ≠ some (.artifactField artifactId field))
      (rest : Walks recipe visited references apps later) :
      Walks recipe visited (reference :: references) apps later
  | again {visited later references apps : List String} {reference stepId : String}
      (followed : producerId? reference = some stepId) (seen : stepId ∈ visited)
      (rest : Walks recipe visited references apps later) :
      Walks recipe visited (reference :: references) apps later
  | unknown {visited later references apps : List String} {reference stepId : String}
      (followed : producerId? reference = some stepId) (fresh : stepId ∉ visited)
      (missing : findStep recipe stepId = none)
      (rest : Walks recipe (stepId :: visited) references apps later) :
      Walks recipe visited (reference :: references) apps later
  | producer {visited between later references found apps : List String}
      {reference stepId : String} {producer : Authored.Step}
      (followed : producerId? reference = some stepId) (fresh : stepId ∉ visited)
      (known : findStep recipe stepId = some producer)
      (inner : Walks recipe (stepId :: visited) (paramRefs producer) found between)
      (rest : Walks recipe between references apps later) :
      Walks recipe visited (reference :: references)
        (firstOccurrences (found ++ extractedApps recipe producer) ++ apps) later

theorem Walks.append (first : Walks recipe visited references apps later)
    {last : List String} (second : Walks recipe later more others last) :
    Walks recipe visited (references ++ more) (apps ++ others) last := by
  induction first with
  | done => exact second
  | artifact named _ ih =>
      rw [List.append_assoc]
      exact .artifact named (ih second)
  | plain unnamed bare _ ih => exact .plain unnamed bare (ih second)
  | again followed seen _ ih => exact .again followed seen (ih second)
  | unknown followed fresh missing _ ih => exact .unknown followed fresh missing (ih second)
  | producer followed fresh known inner _ _ ih =>
      rw [List.append_assoc]
      exact .producer followed fresh known inner (ih second)

theorem Walks.grows (walk : Walks recipe visited references apps later) : visited ⊆ later := by
  induction walk with
  | done => exact List.Subset.refl _
  | artifact _ _ ih | plain _ _ _ ih | again _ _ _ ih => exact ih
  | unknown _ _ _ _ ih => exact List.Subset.trans (List.subset_cons_self _ _) ih
  | producer _ _ _ _ _ inner rest =>
      exact List.Subset.trans (List.subset_cons_self _ _) (List.Subset.trans inner rest)

theorem AppContributes.param
    (followed : producerId? reference = some stepId)
    (known : findStep recipe stepId = some producer) (inside : other ∈ paramRefs producer)
    (contributes : AppContributes recipe app other) : AppContributes recipe app reference := by
  obtain ⟨artifactId, source, reaches, made, owned⟩ := contributes
  obtain ⟨name, used⟩ := mem_paramRefs.mp inside
  exact ⟨artifactId, source, .param followed known used reaches, made, owned⟩

theorem Walks.sound (walk : Walks recipe visited references apps later) (found : app ∈ apps) :
    ∃ reference ∈ references, AppContributes recipe app reference := by
  induction walk with
  | done => simp at found
  | @artifact _ _ references _ reference artifactId _ named _ ih =>
      rcases List.mem_append.mp found with here | rest
      · obtain ⟨source, made, owned⟩ := mem_artifactApp.mp here
        exact ⟨reference, List.mem_cons_self, artifactId, source, .artifact named, made, owned⟩
      · obtain ⟨other, listed, contributes⟩ := ih rest
        exact ⟨other, List.mem_cons_of_mem _ listed, contributes⟩
  | plain _ _ _ ih | again _ _ _ ih | unknown _ _ _ _ ih =>
      obtain ⟨other, listed, contributes⟩ := ih found
      exact ⟨other, List.mem_cons_of_mem _ listed, contributes⟩
  | @producer _ _ _ references inside _ reference stepId producer followed _ known _ _ inner rest =>
      rcases List.mem_append.mp found with here | later
      · refine ⟨reference, List.mem_cons_self, ?_⟩
        rcases List.mem_append.mp (mem_firstOccurrences.mp here) with param | extracted
        · obtain ⟨other, listed, contributes⟩ := inner param
          exact contributes.param followed known listed
        · obtain ⟨extracts, artifactId, chosen, source, made, owned⟩ :=
            mem_extractedApps.mp extracted
          exact ⟨artifactId, source, .selection followed known extracts chosen, made, owned⟩
      · obtain ⟨other, listed, contributes⟩ := rest later
        exact ⟨other, List.mem_cons_of_mem _ listed, contributes⟩

/-- The Apps of a reference's own artifact are found and its producer is visited. -/
structure Covered (recipe : Authored.Recipe) (apps visited : List String) (reference : String) :
    Prop where
  artifact : ∀ artifactId field, parseReference reference = some (.artifactField artifactId field) →
    sourceAppRefs.artifactApp recipe artifactId ⊆ apps
  producer : ∀ stepId, producerId? reference = some stepId → stepId ∈ visited

/-- What a visited step contributes by itself is found, and its references are covered. -/
structure Explored (recipe : Authored.Recipe) (apps visited : List String) (stepId : String) :
    Prop where
  params : ∀ producer, findStep recipe stepId = some producer →
    ∀ reference ∈ paramRefs producer, Covered recipe apps visited reference
  extracted : ∀ producer, findStep recipe stepId = some producer →
    extractedApps recipe producer ⊆ apps

theorem Covered.mono (covered : Covered recipe apps visited reference) (wider : apps ⊆ others)
    (grown : visited ⊆ later) : Covered recipe others later reference :=
  ⟨fun artifactId field named => List.Subset.trans (covered.artifact artifactId field named) wider,
    fun stepId followed => grown (covered.producer stepId followed)⟩

theorem Explored.mono (explored : Explored recipe apps visited stepId) (wider : apps ⊆ others)
    (grown : visited ⊆ later) : Explored recipe others later stepId :=
  ⟨fun producer known reference listed =>
      (explored.params producer known reference listed).mono wider grown,
    fun producer known => List.Subset.trans (explored.extracted producer known) wider⟩

theorem Covered.ofProducer (followed : producerId? reference = some stepId)
    (seen : stepId ∈ visited) : Covered recipe apps visited reference where
  artifact artifactId field named := by
    simp [producerId?, named, RuntimeRef.producerId?] at followed
  producer other names := by
    rw [followed, Option.some.injEq] at names
    rwa [← names]

theorem Walks.complete (walk : Walks recipe visited references apps later) :
    (∀ reference ∈ references, Covered recipe apps later reference) ∧
      ∀ stepId ∈ later, stepId ∉ visited → Explored recipe apps later stepId := by
  induction walk with
  | done => exact ⟨by simp, fun stepId inside outside => absurd inside outside⟩
  | @artifact _ later _ apps reference artifactId field named rest ih =>
      have wider := List.subset_append_right (sourceAppRefs.artifactApp recipe artifactId) apps
      refine ⟨List.forall_mem_cons.mpr ⟨⟨?_, ?_⟩, fun other listed => ?_⟩, ?_⟩
      · intro artifactId field same
        obtain ⟨rfl, rfl⟩ : _ = artifactId ∧ _ = field := by simpa [named] using same
        exact List.subset_append_left _ _
      · intro stepId followed
        simp [producerId?, named, RuntimeRef.producerId?] at followed
      · exact (ih.1 other listed).mono wider (List.Subset.refl _)
      · intro stepId inside fresh
        exact (ih.2 stepId inside fresh).mono wider (List.Subset.refl _)
  | plain unnamed bare _ ih =>
      refine ⟨List.forall_mem_cons.mpr ⟨⟨?_, ?_⟩, ih.1⟩, ih.2⟩
      · intro artifactId field named
        exact absurd named (bare artifactId field)
      · intro stepId followed
        simp [unnamed] at followed
  | again followed seen rest ih =>
      exact ⟨List.forall_mem_cons.mpr ⟨.ofProducer followed (rest.grows seen), ih.1⟩, ih.2⟩
  | @unknown _ _ _ _ _ stepId followed fresh missing rest ih =>
      have visits := rest.grows List.mem_cons_self
      refine ⟨List.forall_mem_cons.mpr ⟨.ofProducer followed visits, ih.1⟩, ?_⟩
      intro other inside outside
      by_cases same : other = stepId
      · subst same
        exact ⟨by simp [missing], by simp [missing]⟩
      · exact ih.2 other inside (by simp [same, outside])
  | @producer visited between later references found apps reference stepId producer followed fresh
      known inner rest ihInner ihRest =>
      have visits : stepId ∈ between := inner.grows List.mem_cons_self
      have grown : between ⊆ later := rest.grows
      have params : found ⊆ firstOccurrences (found ++ extractedApps recipe producer) ++ apps := by
        intro app inside
        simp [inside]
      have wider := List.subset_append_right
        (firstOccurrences (found ++ extractedApps recipe producer)) apps
      refine ⟨List.forall_mem_cons.mpr ⟨.ofProducer followed (grown visits), ?_⟩, ?_⟩
      · intro other listed
        exact (ihRest.1 other listed).mono wider (List.Subset.refl _)
      · intro other inside outside
        by_cases before : other ∈ between
        · by_cases same : other = stepId
          · subst same
            refine ⟨?_, ?_⟩
            · intro step defined reference listed
              obtain rfl : producer = step := by simpa [known] using defined
              exact (ihInner.1 reference listed).mono params grown
            · intro step defined app extracted
              obtain rfl : producer = step := by simpa [known] using defined
              simp [extracted]
          · exact (ihInner.2 other before (by simp [same, outside])).mono params grown
        · exact (ihRest.2 other inside before).mono wider (List.Subset.refl _)

theorem Contributes.found (contributes : Contributes recipe artifactId reference)
    (explored : ∀ stepId ∈ visited, Explored recipe apps visited stepId)
    (covered : Covered recipe apps visited reference) :
    sourceAppRefs.artifactApp recipe artifactId ⊆ apps := by
  induction contributes with
  | artifact named => exact covered.artifact _ _ named
  | param followed known used _ ih =>
      have seen := covered.producer _ followed
      exact ih ((explored _ seen).params _ known _ (mem_paramRefs.mpr ⟨_, used⟩))
  | selection followed known extracts chosen =>
      have seen := covered.producer _ followed
      intro app owned
      obtain ⟨source, made, named⟩ := mem_artifactApp.mp owned
      exact (explored _ seen).extracted _ known
        (mem_extractedApps.mpr ⟨extracts, _, chosen, source, made, named⟩)

theorem Walks.exact (walk : Walks recipe [] [reference] apps later) :
    app ∈ apps ↔ AppContributes recipe app reference := by
  constructor
  · intro found
    obtain ⟨other, listed, contributes⟩ := walk.sound found
    rwa [List.mem_singleton.mp listed] at contributes
  · rintro ⟨artifactId, source, contributes, made, owned⟩
    have covers := walk.complete
    exact contributes.found (fun stepId inside => covers.2 stepId inside (by simp))
      (covers.1 reference (by simp)) (mem_artifactApp.mpr ⟨source, made, owned⟩)

def unvisited (recipe : Authored.Recipe) (visited : List String) : Nat :=
  recipe.steps.countP fun step => step.id ∉ visited

theorem unvisited_mono (grown : visited ⊆ later) : unvisited recipe later ≤ unvisited recipe visited :=
  List.countP_mono_left fun step _ fresh => by
    simp only [decide_eq_true_eq] at fresh ⊢
    exact fun seen => fresh (grown seen)

theorem unvisited_lt (known : findStep recipe stepId = some producer) (fresh : stepId ∉ visited) :
    unvisited recipe (stepId :: visited) < unvisited recipe visited := by
  have inside : producer ∈ recipe.steps := List.mem_of_find?_eq_some known
  have named : producer.id = stepId := by simpa using List.find?_some known
  obtain ⟨before, after, parts⟩ := List.append_of_mem inside
  have left : before.countP (fun step => step.id ∉ stepId :: visited) ≤
      before.countP (fun step => step.id ∉ visited) :=
    List.countP_mono_left fun step _ out => by simp_all
  have right : after.countP (fun step => step.id ∉ stepId :: visited) ≤
      after.countP (fun step => step.id ∉ visited) :=
    List.countP_mono_left fun step _ out => by simp_all
  simp only [unvisited, parts, List.countP_append, List.countP_cons, named, List.mem_cons, true_or,
    not_true_eq_false, decide_false, Bool.false_eq_true, ↓reduceIte, fresh, not_false_eq_true,
    decide_true] at left right ⊢
  omega

def producerApps (recipe : Authored.Recipe)
    (walk : List String → String → List String × List String) (visited : List String)
    (stepId : String) : List String × List String :=
  if stepId ∈ visited then ([], visited)
  else
    match findStep recipe stepId with
    | none => ([], stepId :: visited)
    | some producer =>
        let found := (paramRefs producer).foldl (fun found reference =>
          (found.1 ++ (walk found.2 reference).1, (walk found.2 reference).2))
          ([], stepId :: visited)
        (firstOccurrences (found.1 ++ extractedApps recipe producer), found.2)

theorem walks_foldl {fuel : Nat}
    (step : ∀ reference visited, unvisited recipe visited < fuel →
      Walks recipe visited [reference] (sourceAppRefs recipe fuel visited reference).1
        (sourceAppRefs recipe fuel visited reference).2)
    (found : List String) (enough : unvisited recipe visited < fuel) :
    ∃ apps, (references.foldl (fun found reference =>
        (found.1 ++ (sourceAppRefs recipe fuel found.2 reference).1,
          (sourceAppRefs recipe fuel found.2 reference).2)) (found, visited)).1 = found ++ apps ∧
      Walks recipe visited references apps (references.foldl (fun found reference =>
        (found.1 ++ (sourceAppRefs recipe fuel found.2 reference).1,
          (sourceAppRefs recipe fuel found.2 reference).2)) (found, visited)).2 := by
  induction references generalizing found visited with
  | nil => exact ⟨[], by simp, .done⟩
  | cons reference references ih =>
      have first := step reference visited enough
      obtain ⟨apps, same, rest⟩ :=
        ih (found ++ (sourceAppRefs recipe fuel visited reference).1)
          (Nat.lt_of_le_of_lt (unvisited_mono first.grows) enough)
      refine ⟨(sourceAppRefs recipe fuel visited reference).1 ++ apps, ?_, ?_⟩
      · simpa using same
      · simpa using first.append rest

theorem producer_walks {fuel : Nat}
    (step : ∀ {visited : List String} {reference : String}, unvisited recipe visited < fuel →
      Walks recipe visited [reference] (sourceAppRefs recipe fuel visited reference).1
        (sourceAppRefs recipe fuel visited reference).2)
    (enough : unvisited recipe visited < fuel + 1) (followed : producerId? reference = some stepId) :
    let result := producerApps recipe (sourceAppRefs recipe fuel) visited stepId
    Walks recipe visited [reference] result.1 result.2 := by
  unfold producerApps
  by_cases seen : stepId ∈ visited
  · simpa [seen] using Walks.again followed seen .done
  · cases known : findStep recipe stepId with
    | none => simpa [seen] using Walks.unknown followed seen known .done
    | some producer =>
        have fewer := unvisited_lt known seen
        have enough : unvisited recipe (stepId :: visited) < fuel := by omega
        obtain ⟨apps, same, walk⟩ :=
          @walks_foldl recipe (paramRefs producer) _ fuel (fun reference visited => step) [] enough
        simp only [seen, ↓reduceIte, same, List.nil_append]
        simpa using Walks.producer followed seen known walk .done

theorem sourceAppRefs_walks {fuel : Nat} (enough : unvisited recipe visited < fuel) :
    Walks recipe visited [reference] (sourceAppRefs recipe fuel visited reference).1
      (sourceAppRefs recipe fuel visited reference).2 := by
  induction fuel generalizing visited reference with
  | zero => omega
  | succ fuel ih =>
      rw [sourceAppRefs]
      cases parsed : parseReference reference with
      | none => exact .plain (by simp [producerId?, parsed]) (by simp [parsed]) .done
      | some target =>
          cases target with
          | input targetId =>
              exact .plain (by simp [producerId?, parsed, RuntimeRef.producerId?])
                (by simp [parsed]) .done
          | artifactField artifactId field => simpa using Walks.artifact parsed .done
          | stepShorthand stepId =>
              exact producer_walks ih enough (by simp [producerId?, parsed, RuntimeRef.producerId?])
          | stepOutput stepId field =>
              exact producer_walks ih enough (by simp [producerId?, parsed, RuntimeRef.producerId?])

/-- The source's recursion returns on every Recipe, and the Apps it finds are those with an
artifact that contributes to the reference. -/
theorem sourceAppRefs_exact (recipe : Authored.Recipe) (reference : String) :
    Walks recipe [] [reference] (sourceAppRefs recipe (recipe.steps.length + 1) [] reference).1
        (sourceAppRefs recipe (recipe.steps.length + 1) [] reference).2 ∧
      ∀ app, app ∈ (sourceAppRefs recipe (recipe.steps.length + 1) [] reference).1 ↔
        AppContributes recipe app reference := by
  have enough : unvisited recipe [] < recipe.steps.length + 1 :=
    Nat.lt_succ_of_le List.countP_le_length
  have walk := @sourceAppRefs_walks recipe reference [] _ enough
  exact ⟨walk, fun app => walk.exact⟩

end EmuChef.Planner
