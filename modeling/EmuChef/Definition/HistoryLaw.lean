import EmuChef.Definition.Editing
import EmuChef.Definition.EmissionLaw

/-! What the editing history of an App Definition keeps: its text is the emission of the model, undo
and redo are exact. -/

namespace EmuChef.Definition

section

variable (codec : YamlCodec) (rules : ContentRules)

/-- What happens to an open document, with what the files answer at that moment. -/
inductive Event where
  | command (decoded : Except String AppDefinitionCommand) (admission : AppDefinitionSaveAdmission)
  | undo
  | redo
  | save (admission : AppDefinitionSaveAdmission)
      (published : Except AppDefinitionPersistenceError OpenedAppDefinitionFile)
      (refreshed : List Json)
  | saveAs (destination : Except Json Unit) (admission : AppDefinitionSaveAdmission)
      (published : Except AppDefinitionPersistenceError OpenedAppDefinitionFile)
      (refreshed : List Json)
  | refresh (openedFile : OpenedAppDefinitionFile)
  | validate
  | setAuthoredRoot (authoredRoot : Option FilePath)
  | setDiagnostics (diagnostics : List Json)

/-- A document and the App Definition that was last opened, saved or published by a generator. -/
structure Session where
  document : AppDefinitionDocument
  published : AppDefinitionV1

def Session.step (session : Session) : Event → Session
  | .command decoded admission =>
      match applyCommand codec rules session.document decoded admission with
      | .ok (_, document) => ⟨document, session.published⟩
      | .error _ => session
  | .undo => ⟨(EmuChef.Definition.undo session.document).2, session.published⟩
  | .redo => ⟨(EmuChef.Definition.redo session.document).2, session.published⟩
  | .save admission published refreshed =>
      let (saved, document) :=
        saveAppDefinition codec rules session.document admission published refreshed
      ⟨document, if saved then session.document.appDefinition else session.published⟩
  | .saveAs destination admission published refreshed =>
      let (saved, document) :=
        saveAppDefinitionAs codec rules session.document destination admission published refreshed
      ⟨document, if saved then session.document.appDefinition else session.published⟩
  | .refresh openedFile =>
      match refreshAfterGeneratorPublication codec rules session.document openedFile with
      | .ok document => ⟨document, document.appDefinition⟩
      | .error _ => session
  | .validate => ⟨session.document.validate rules, session.published⟩
  | .setAuthoredRoot authoredRoot =>
      ⟨({ session.document with authoredRoot := authoredRoot }).validate rules, session.published⟩
  | .setDiagnostics diagnostics => ⟨session.document.setDiagnostics diagnostics, session.published⟩

def Session.run (session : Session) (events : List Event) : Session :=
  events.foldl (Session.step codec rules) session

end

section

variable (codec : YamlCodec) (rules : ContentRules)

def AppDefinitionDocument.timeline (document : AppDefinitionDocument) : Timeline ContentSnapshot :=
  ⟨document.undoStack, document.contentSnapshot, document.redoStack⟩

def Alternating (line : Timeline ContentSnapshot) : Prop :=
  line.Alternates ContentSnapshot.currentYaml

def sameIdentity (app : AppDefinitionV1) (snapshot : ContentSnapshot) : Bool :=
  snapshot.appDefinition.id = app.id ∧ snapshot.appDefinition.packageId = app.packageId

/-- A publication as a catalog App does not bring contents with one text together: those that have
the identity of the App still alternate without the others between them. -/
def Settles (session : Session) : Event → Prop
  | .saveAs destination admission published _ =>
      destination = .ok () →
        (∃ openedFile, persistAppDefinition codec rules session.document.appDefinition admission
          published = .ok openedFile) →
        Alternating (session.document.timeline.restrict
          (sameIdentity session.document.appDefinition))
  | _ => True

def RunSettles (session : Session) : List Event → Prop
  | [] => True
  | event :: events =>
      Settles codec rules session event ∧ RunSettles (session.step codec rules event) events

def TakesBack (before after : AppDefinitionDocument) : Prop :=
  (undo after).1 = true ∧ (undo after).2.contentSnapshot = before.contentSnapshot ∧
    (redo (undo after).2).1 = true ∧
    (redo (undo after).2).2.contentSnapshot = after.contentSnapshot

structure ExactHistory (session : Session) : Prop where
  emission : session.document.currentYaml =
    emitAppDefinitionDraftYaml codec session.document.appDefinition
  dirty : session.document.isDirty = true ↔
    emitAppDefinitionDraftYaml codec session.document.appDefinition ≠
      emitAppDefinitionDraftYaml codec session.published
  canUndo : session.document.canUndo = true ↔
    (undo session.document).2.currentYaml ≠ session.document.currentYaml
  undoSucceeds : (undo session.document).1 = session.document.canUndo
  canRedo : session.document.canRedo = true ↔
    (redo session.document).2.currentYaml ≠ session.document.currentYaml
  redoSucceeds : (redo session.document).1 = session.document.canRedo
  takesBack : ∀ decoded admission after,
    applyCommand codec rules session.document decoded admission = .ok (true, after) →
    TakesBack session.document after
  identity : ∀ identity, session.document.catalogIdentity = some identity →
    session.document.appDefinition.id = identity.id ∧
      session.document.appDefinition.packageId = identity.packageId

end

section

variable {codec : YamlCodec} {rules : ContentRules} {document after : AppDefinitionDocument}
  {decoded : Except String AppDefinitionCommand} {admission : AppDefinitionSaveAdmission}
  {published : Except AppDefinitionPersistenceError OpenedAppDefinitionFile}
  {openedFile : OpenedAppDefinitionFile} {refreshed : List Json} {changed : Bool}

theorem applyAppDefinitionCommand_identity {app candidate : AppDefinitionV1}
    {command : AppDefinitionCommand} {scope : ValidationScope}
    (applied : applyAppDefinitionCommand rules app command = .ok (candidate, scope))
    (plain : command.setsIdentity = false) :
    candidate.id = app.id ∧ candidate.packageId = app.packageId := by
  have kept {α : Type} {result : Except String α} {rewrite : α → AppDefinitionV1 × ValidationScope}
      (same : ∀ value, (rewrite value).1.id = app.id ∧ (rewrite value).1.packageId = app.packageId)
      (made : result.map rewrite = .ok (candidate, scope)) :
      candidate.id = app.id ∧ candidate.packageId = app.packageId := by
    cases result with
    | error message => cases made
    | ok value =>
        have equal : rewrite value = (candidate, scope) := Except.ok.inj made
        simpa [equal] using same value
  cases command with
  | setId id => cases plain
  | setPackageId packageId => cases plain
  | setName _ | setDescription _ | setCategory _ | setLauncherActivity _ | setPermissionSet _ _
  | setMetadataEntry _ _ =>
      cases applied
      exact ⟨rfl, rfl⟩
  | addArtifact _ _ | replaceArtifact _ _ | removeArtifact _ | reorderArtifact _ _ | addTarget _ _
  | replaceTarget _ _ | removeTarget _ | reorderTarget _ _ | removeMetadataEntry _ =>
      exact kept (fun value => ⟨rfl, rfl⟩) applied

theorem mapError_eq_ok {ε ε' α : Type} {result : Except ε α} {rewrite : ε → ε'} {value : α} :
    result.mapError rewrite = .ok value ↔ result = .ok value := by
  cases result <;> simp [Except.mapError]

theorem applyCommand_cases
    (applied : applyCommand codec rules document decoded admission = .ok (changed, after)) :
    (changed = false ∧ after = document) ∨ (changed = true ∧ ∃ candidate diagnostics,
      after = { document with
        appDefinition := candidate
        currentYaml := emitAppDefinitionDraftYaml codec candidate
        diagnostics := diagnostics
        undoStack := document.contentSnapshot :: document.undoStack
        redoStack := [] } ∧
      emitAppDefinitionDraftYaml codec candidate ≠ document.currentYaml ∧
      (document.catalogIdentity.isSome → candidate.id = document.appDefinition.id ∧
        candidate.packageId = document.appDefinition.packageId)) := by
  unfold applyCommand at applied
  obtain ⟨command, _, applied⟩ := Checks.bind_eq_ok.mp applied
  by_cases fixed : document.catalogIdentity.isSome ∧ command.setsIdentity
  · simp [fixed] at applied
  · simp only [fixed, ↓reduceIte] at applied
    obtain ⟨⟨candidate, scope⟩, made, applied⟩ := Checks.bind_eq_ok.mp applied
    simp only at applied
    by_cases same : emitAppDefinitionDraftYaml codec candidate = document.currentYaml
    · simp only [same, ↓reduceIte, Except.ok.injEq, Prod.mk.injEq] at applied
      exact .inl ⟨applied.1.symm, applied.2.symm⟩
    · simp only [same, ↓reduceIte] at applied
      obtain ⟨_, _, applied⟩ := Checks.bind_eq_ok.mp applied
      split at applied
      · cases applied
      · simp only [Except.ok.injEq, Prod.mk.injEq] at applied
        refine .inr ⟨applied.1.symm, candidate, _, applied.2.symm, same, fun catalogued => ?_⟩
        refine applyAppDefinitionCommand_identity (mapError_eq_ok.mp made) ?_
        simpa [catalogued] using fixed

theorem persistAppDefinition_source {value : AppDefinitionV1}
    (saved : persistAppDefinition codec rules value admission published = .ok openedFile) :
    savedYaml openedFile = emitAppDefinitionDraftYaml codec value := by
  unfold persistAppDefinition at saved
  split at saved
  · cases saved
  · obtain ⟨canonical, emitted, saved⟩ := Checks.bind_eq_ok.mp saved
    obtain ⟨file, _, saved⟩ := Checks.bind_eq_ok.mp saved
    have text : canonical = emitAppDefinitionDraftYaml codec value := by
      have emitted := mapError_eq_ok.mp emitted
      unfold emitAppDefinitionYaml at emitted
      split at emitted
      · exact (Except.ok.inj emitted).symm
      · cases emitted
    split at saved
    · cases saved
    · next same =>
        obtain rfl := Except.ok.inj saved
        rw [savedYaml, not_not.mp same, text]
        rfl

def AppDefinitionDocument.saved (codec : YamlCodec) (document : AppDefinitionDocument)
    (openedFile : OpenedAppDefinitionFile) (diagnostics : List Json) : AppDefinitionDocument :=
  { document with
    path := openedFile.path
    openedFile := openedFile
    currentYaml := emitAppDefinitionDraftYaml codec document.appDefinition
    savedYaml := emitAppDefinitionDraftYaml codec document.appDefinition
    diagnostics := diagnostics }

theorem saveAppDefinition_cases
    (outcome : saveAppDefinition codec rules document admission published refreshed =
      (changed, after)) :
    (changed = false ∧ ∃ diagnostics, after = document.setDiagnostics diagnostics) ∨
      (changed = true ∧ ∃ openedFile, after = document.saved codec openedFile refreshed) := by
  unfold saveAppDefinition at outcome
  simp only at outcome
  split at outcome
  · cases outcome
    exact .inl ⟨rfl, _, rfl⟩
  · split at outcome
    · cases outcome
      exact .inl ⟨rfl, _, rfl⟩
    · next openedFile saved =>
        cases outcome
        refine .inr ⟨rfl, openedFile, ?_⟩
        rw [persistAppDefinition_source saved]
        rfl

theorem saveAppDefinitionAs_cases {destination : Except Json Unit}
    (outcome : saveAppDefinitionAs codec rules document destination admission published refreshed =
      (changed, after)) :
    (changed = false ∧ ∃ diagnostics, after = document.setDiagnostics diagnostics) ∨
      (changed = true ∧ destination = .ok () ∧ ∃ openedFile,
        persistAppDefinition codec rules document.appDefinition admission published =
          .ok openedFile ∧
        after = (setSavedPath document openedFile.path (savedRoot openedFile.path)).saved codec
          openedFile refreshed) := by
  unfold saveAppDefinitionAs at outcome
  split at outcome
  · cases outcome
    exact .inl ⟨rfl, _, rfl⟩
  · simp only at outcome
    split at outcome
    · cases outcome
      exact .inl ⟨rfl, _, rfl⟩
    · split at outcome
      · cases outcome
        exact .inl ⟨rfl, _, rfl⟩
      · next openedFile saved =>
          cases outcome
          refine .inr ⟨rfl, rfl, openedFile, saved, ?_⟩
          rw [persistAppDefinition_source saved]
          rfl

theorem refresh_cases
    (refreshes : refreshAfterGeneratorPublication codec rules document openedFile = .ok after) :
    ∃ candidate diagnostics, after = { document with
        appDefinition := candidate
        openedFile := openedFile
        currentYaml := emitAppDefinitionDraftYaml codec candidate
        savedYaml := emitAppDefinitionDraftYaml codec candidate
        undoStack := []
        redoStack := []
        diagnostics := diagnostics } ∧
      ∀ identity, document.catalogIdentity = some identity →
        candidate.id = identity.id ∧ candidate.packageId = identity.packageId := by
  unfold refreshAfterGeneratorPublication at refreshes
  split at refreshes
  · cases refreshes
  · obtain ⟨source, _, refreshes⟩ := Checks.bind_eq_ok.mp refreshes
    obtain ⟨candidate, _, refreshes⟩ := Checks.bind_eq_ok.mp refreshes
    split at refreshes
    · cases refreshes
    · next kept =>
        refine ⟨candidate, _, (Except.ok.inj refreshes).symm, fun identity owned => ?_⟩
        have same : ¬(identity.id ≠ candidate.id ∨ identity.packageId ≠ candidate.packageId) := by
          simpa [owned] using kept
        rw [not_or, not_not, not_not] at same
        exact ⟨same.1.symm, same.2.symm⟩

end

section

variable {codec : YamlCodec} {rules : ContentRules} {session : Session}
  {document : AppDefinitionDocument} {snapshot : ContentSnapshot} {moved : Timeline ContentSnapshot}

def Emitted (codec : YamlCodec) (snapshot : ContentSnapshot) : Prop :=
  snapshot.currentYaml = emitAppDefinitionDraftYaml codec snapshot.appDefinition

/-- The invariant of a session: every content of the history is emitted and may be returned to. -/
structure Coherent (codec : YamlCodec) (session : Session) : Prop where
  emitted : session.document.timeline.Throughout (Emitted codec)
  admitted : session.document.timeline.Throughout fun snapshot =>
    session.document.admits snapshot = true
  baseline : session.document.savedYaml = emitAppDefinitionDraftYaml codec session.published

theorem admits_iff : document.admits snapshot = true ↔
    ∀ identity, document.catalogIdentity = some identity →
      snapshot.appDefinition.id = identity.id ∧
        snapshot.appDefinition.packageId = identity.packageId := by
  simp only [AppDefinitionDocument.admits, Option.all_eq_true, snapshotMatchesCatalogIdentity,
    decide_eq_true_eq]

theorem dropWhile_admitted {stack : List ContentSnapshot}
    (admitted : ∀ snapshot ∈ stack, document.admits snapshot = true) :
    stack.dropWhile (fun snapshot => !document.admits snapshot) = stack := by
  cases stack with
  | nil => rfl
  | cons first rest => simp [admitted first List.mem_cons_self]

def AppDefinitionDocument.at (document : AppDefinitionDocument) (moved : Timeline ContentSnapshot) :
    AppDefinitionDocument :=
  { document.restoreContent moved.present with undoStack := moved.past, redoStack := moved.future }

theorem undo_eq (admitted : ∀ snapshot ∈ document.undoStack, document.admits snapshot = true) :
    (document.undoStack = [] ∧ undo document = (false, document)) ∨
      document.undoStack ≠ [] ∧ ∃ moved, document.timeline.back = some moved ∧
        undo document = (true, document.at moved) := by
  unfold undo
  rw [dropWhile_admitted admitted]
  cases held : document.undoStack with
  | nil =>
      refine .inl ⟨rfl, ?_⟩
      simp only [← held]
  | cons previous rest =>
      exact .inr ⟨by simp, ⟨rest, previous, document.contentSnapshot :: document.redoStack⟩,
        by simp [AppDefinitionDocument.timeline, Timeline.back, held], rfl⟩

theorem redo_eq (admitted : ∀ snapshot ∈ document.redoStack, document.admits snapshot = true) :
    (document.redoStack = [] ∧ redo document = (false, document)) ∨
      document.redoStack ≠ [] ∧ ∃ moved, document.timeline.forward = some moved ∧
        redo document = (true, document.at moved) := by
  unfold redo
  rw [dropWhile_admitted admitted]
  cases held : document.redoStack with
  | nil =>
      refine .inl ⟨rfl, ?_⟩
      simp only [← held]
  | cons next rest =>
      exact .inr ⟨by simp, ⟨document.contentSnapshot :: document.undoStack, next, rest⟩,
        by simp [AppDefinitionDocument.timeline, Timeline.forward, held], rfl⟩

theorem Coherent.diagnosed (coherent : Coherent codec session) (authoredRoot : Option FilePath)
    (diagnostics : List Json) : Coherent codec
      ⟨{ session.document with authoredRoot := authoredRoot, diagnostics := diagnostics },
        session.published⟩ :=
  ⟨coherent.emitted.replace coherent.emitted.present,
    coherent.admitted.replace coherent.admitted.present, coherent.baseline⟩

theorem Coherent.saved (coherent : Coherent codec session) (openedFile : OpenedAppDefinitionFile)
    (diagnostics : List Json) : Coherent codec
      ⟨session.document.saved codec openedFile diagnostics, session.document.appDefinition⟩ :=
  ⟨coherent.emitted.replace rfl, coherent.admitted.replace coherent.admitted.present, rfl⟩

theorem Alternating.saved (alternating : Alternating document.timeline)
    (emitted : Emitted codec document.contentSnapshot) (openedFile : OpenedAppDefinitionFile)
    (diagnostics : List Json) :
    Alternating (document.saved codec openedFile diagnostics).timeline :=
  alternating.replace emitted.symm

theorem Coherent.setSavedPath (coherent : Coherent codec session) (path authoredRoot : FilePath) :
    Coherent codec ⟨EmuChef.Definition.setSavedPath session.document path authoredRoot,
      session.published⟩ := by
  have kept (snapshot : ContentSnapshot) :
      sameIdentity session.document.appDefinition snapshot = true →
      (EmuChef.Definition.setSavedPath session.document path authoredRoot).admits snapshot = true := by
    intro same
    rw [admits_iff]
    rintro identity ⟨⟩
    simpa [sameIdentity] using same
  have present : sameIdentity session.document.appDefinition session.document.contentSnapshot = true := by
    simp [sameIdentity, AppDefinitionDocument.contentSnapshot]
  refine ⟨coherent.emitted.restrict, ⟨?_, kept _ present, ?_⟩, coherent.baseline⟩
  · intro snapshot listed
    exact kept snapshot (List.of_mem_filter listed)
  · intro snapshot listed
    exact kept snapshot (List.of_mem_filter listed)

end

section

variable {codec : YamlCodec} {rules : ContentRules} {session after : Session} {event : Event}

inductive Effect (codec : YamlCodec) (rules : ContentRules) (session : Session) (event : Event) :
    Session → Prop
  | diagnosed (authoredRoot : Option FilePath) (diagnostics : List Json) :
      Effect codec rules session event
        ⟨{ session.document with authoredRoot := authoredRoot, diagnostics := diagnostics },
          session.published⟩
  | recorded (candidate : AppDefinitionV1) (diagnostics : List Json)
      (different : emitAppDefinitionDraftYaml codec candidate ≠ session.document.currentYaml)
      (identity : session.document.catalogIdentity.isSome →
        candidate.id = session.document.appDefinition.id ∧
          candidate.packageId = session.document.appDefinition.packageId) :
      Effect codec rules session event
        ⟨{ session.document with
            appDefinition := candidate
            currentYaml := emitAppDefinitionDraftYaml codec candidate
            diagnostics := diagnostics
            undoStack := session.document.contentSnapshot :: session.document.undoStack
            redoStack := [] },
          session.published⟩
  | travelled (moved : Timeline ContentSnapshot)
      (along : session.document.timeline.back = some moved ∨
        session.document.timeline.forward = some moved) :
      Effect codec rules session event ⟨session.document.at moved, session.published⟩
  | saved (openedFile : OpenedAppDefinitionFile) (diagnostics : List Json) :
      Effect codec rules session event
        ⟨session.document.saved codec openedFile diagnostics, session.document.appDefinition⟩
  | located (openedFile : OpenedAppDefinitionFile) (authoredRoot : FilePath) (diagnostics : List Json)
      (settled : Settles codec rules session event →
        Alternating (session.document.timeline.restrict
          (sameIdentity session.document.appDefinition))) :
      Effect codec rules session event
        ⟨(setSavedPath session.document openedFile.path authoredRoot).saved codec openedFile
            diagnostics, session.document.appDefinition⟩
  | refreshed (candidate : AppDefinitionV1) (openedFile : OpenedAppDefinitionFile)
      (diagnostics : List Json)
      (identity : ∀ identity, session.document.catalogIdentity = some identity →
        candidate.id = identity.id ∧ candidate.packageId = identity.packageId) :
      Effect codec rules session event
        ⟨{ session.document with
            appDefinition := candidate
            openedFile := openedFile
            currentYaml := emitAppDefinitionDraftYaml codec candidate
            savedYaml := emitAppDefinitionDraftYaml codec candidate
            undoStack := []
            redoStack := []
            diagnostics := diagnostics },
          candidate⟩

theorem step_effect (coherent : Coherent codec session) :
    Effect codec rules session event (session.step codec rules event) := by
  have kept : Effect codec rules session event session :=
    .diagnosed session.document.authoredRoot session.document.diagnostics
  cases event with
  | command decoded admission =>
      simp only [Session.step]
      split
      · next changed after applied =>
          obtain ⟨_, rfl⟩ | ⟨_, candidate, diagnostics, rfl, different, identity⟩ :=
            applyCommand_cases applied
          · exact kept
          · exact .recorded candidate diagnostics different identity
      · exact kept
  | undo =>
      obtain ⟨_, same⟩ | ⟨_, moved, along, same⟩ := undo_eq coherent.admitted.past
      · simpa only [Session.step, same] using kept
      · simpa only [Session.step, same] using Effect.travelled moved (.inl along)
  | redo =>
      obtain ⟨_, same⟩ | ⟨_, moved, along, same⟩ := redo_eq coherent.admitted.future
      · simpa only [Session.step, same] using kept
      · simpa only [Session.step, same] using Effect.travelled moved (.inr along)
  | save admission published refreshed =>
      rcases outcome : saveAppDefinition codec rules session.document admission published refreshed
        with ⟨changed, after⟩
      simp only [Session.step, outcome]
      obtain ⟨rfl, diagnostics, rfl⟩ | ⟨rfl, openedFile, rfl⟩ := saveAppDefinition_cases outcome
      · exact .diagnosed session.document.authoredRoot diagnostics
      · exact .saved openedFile refreshed
  | saveAs destination admission published refreshed =>
      rcases outcome : saveAppDefinitionAs codec rules session.document destination admission
        published refreshed with ⟨changed, after⟩
      simp only [Session.step, outcome]
      obtain ⟨rfl, diagnostics, rfl⟩ | ⟨rfl, allowed, openedFile, persisted, rfl⟩ :=
        saveAppDefinitionAs_cases outcome
      · exact .diagnosed session.document.authoredRoot diagnostics
      · exact .located openedFile _ refreshed fun settles => settles allowed ⟨openedFile, persisted⟩
  | refresh openedFile =>
      simp only [Session.step]
      split
      · next after refreshes =>
          obtain ⟨candidate, diagnostics, rfl, identity⟩ := refresh_cases refreshes
          exact .refreshed candidate openedFile diagnostics identity
      · exact kept
  | validate => exact .diagnosed session.document.authoredRoot _
  | setAuthoredRoot authoredRoot => exact .diagnosed authoredRoot _
  | setDiagnostics diagnostics => exact .diagnosed session.document.authoredRoot diagnostics

theorem Effect.coherent (effect : Effect codec rules session event after)
    (coherent : Coherent codec session) : Coherent codec after := by
  obtain ⟨emitted, admitted, baseline⟩ := coherent
  cases effect with
  | diagnosed authoredRoot diagnostics =>
      exact ⟨emitted.replace emitted.present, admitted.replace admitted.present, baseline⟩
  | recorded candidate diagnostics different identity =>
      refine ⟨emitted.record rfl, admitted.record (admits_iff.mpr fun owner owned => ?_), baseline⟩
      obtain ⟨id, packageId⟩ := admits_iff.mp admitted.present owner owned
      obtain ⟨sameId, samePackage⟩ := identity (by simp [owned])
      exact ⟨sameId.trans id, samePackage.trans packageId⟩
  | travelled moved along =>
      rcases along with undone | redone
      · exact ⟨emitted.back undone, admitted.back undone, baseline⟩
      · exact ⟨emitted.forward redone, admitted.forward redone, baseline⟩
  | saved openedFile diagnostics =>
      exact Coherent.saved ⟨emitted, admitted, baseline⟩ openedFile diagnostics
  | located openedFile authoredRoot diagnostics settled =>
      exact (Coherent.setSavedPath ⟨emitted, admitted, baseline⟩ openedFile.path
        authoredRoot).saved openedFile diagnostics
  | refreshed candidate openedFile diagnostics identity =>
      exact ⟨.alone rfl, .alone (admits_iff.mpr identity), rfl⟩

theorem Effect.alternating (effect : Effect codec rules session event after)
    (coherent : Coherent codec session) (settles : Settles codec rules session event)
    (alternating : Alternating session.document.timeline) :
    Alternating after.document.timeline := by
  cases effect with
  | diagnosed authoredRoot diagnostics => exact alternating.replace rfl
  | recorded candidate diagnostics different identity => exact alternating.record different.symm
  | travelled moved along =>
      rcases along with undone | redone
      · exact (alternating.back undone).1
      · exact (alternating.forward redone).1
  | saved openedFile diagnostics =>
      exact alternating.saved coherent.emitted.present openedFile diagnostics
  | located openedFile authoredRoot diagnostics settled =>
      have kept : Alternating
          (setSavedPath session.document openedFile.path authoredRoot).timeline := settled settles
      exact kept.saved coherent.emitted.present openedFile diagnostics
  | refreshed candidate openedFile diagnostics identity => exact .alone

theorem Effect.identity (effect : Effect codec rules session event after)
    (coherent : Coherent codec session) {identity : CatalogIdentity}
    (owned : session.document.catalogIdentity = some identity) :
    ∃ later, after.document.catalogIdentity = some later ∧ later.id = identity.id ∧
      later.packageId = identity.packageId := by
  cases effect with
  | located openedFile authoredRoot diagnostics settled =>
      exact ⟨_, rfl, admits_iff.mp coherent.admitted.present identity owned⟩
  | diagnosed _ _ | recorded _ _ _ _ | travelled _ _ | saved _ _ | refreshed _ _ _ _ =>
      exact ⟨identity, owned, rfl, rfl⟩

end

section

variable {codec : YamlCodec} {rules : ContentRules} {session : Session} {events : List Event}
  {document : AppDefinitionDocument}

def openedSession (document : AppDefinitionDocument) : Session := ⟨document, document.appDefinition⟩

theorem openDocument_cases {openedFile : OpenedAppDefinitionFile}
    {authoredRoot catalogRoot : Option FilePath}
    (opened : openDocument codec rules openedFile authoredRoot catalogRoot = .ok document) :
    Coherent codec (openedSession document) ∧ Alternating document.timeline := by
  unfold openDocument at opened
  obtain ⟨source, _, opened⟩ := Checks.bind_eq_ok.mp opened
  split at opened
  · cases opened
  · obtain ⟨definition, _, opened⟩ := Checks.bind_eq_ok.mp opened
    obtain rfl := Except.ok.inj opened
    refine ⟨⟨.alone rfl, .alone (admits_iff.mpr fun identity owned => ?_), rfl⟩, .alone⟩
    obtain ⟨root, _, rfl⟩ := Option.map_eq_some_iff.mp owned
    exact ⟨rfl, rfl⟩

theorem Coherent.run (coherent : Coherent codec session) :
    Coherent codec (session.run codec rules events) := by
  induction events generalizing session with
  | nil => exact coherent
  | cons event events ih => exact ih ((step_effect coherent).coherent coherent)

theorem alternating_run (coherent : Coherent codec session)
    (settles : RunSettles codec rules session events)
    (alternating : Alternating session.document.timeline) :
    Alternating (session.run codec rules events).document.timeline := by
  induction events generalizing session with
  | nil => exact alternating
  | cons event events ih =>
      have effect := @step_effect codec rules session event coherent
      exact ih (effect.coherent coherent) settles.2
        (effect.alternating coherent settles.1 alternating)

theorem identity_run (coherent : Coherent codec session) {identity : CatalogIdentity}
    (owned : session.document.catalogIdentity = some identity) :
    ∃ later, (session.run codec rules events).document.catalogIdentity = some later ∧
      later.id = identity.id ∧ later.packageId = identity.packageId := by
  induction events generalizing session identity with
  | nil => exact ⟨identity, owned, rfl, rfl⟩
  | cons event events ih =>
      have effect := @step_effect codec rules session event coherent
      obtain ⟨next, nextOwned, id, packageId⟩ := effect.identity coherent owned
      obtain ⟨later, laterOwned, laterId, laterPackage⟩ := ih (effect.coherent coherent) nextOwned
      exact ⟨later, laterOwned, laterId.trans id, laterPackage.trans packageId⟩

end

section

variable {codec : YamlCodec} {rules : ContentRules} {session : Session}
  {before after : AppDefinitionDocument} {decoded : Except String AppDefinitionCommand}
  {admission : AppDefinitionSaveAdmission}

theorem undo_cons {document : AppDefinitionDocument} {previous : ContentSnapshot}
    {rest : List ContentSnapshot} (held : document.undoStack = previous :: rest)
    (admitted : document.admits previous = true) :
    undo document = (true, document.at
      ⟨rest, previous, document.contentSnapshot :: document.redoStack⟩) := by
  rw [undo, held, List.dropWhile_cons_of_neg (by simp [admitted])]
  rfl

theorem redo_cons {document : AppDefinitionDocument} {next : ContentSnapshot}
    {rest : List ContentSnapshot} (held : document.redoStack = next :: rest)
    (admitted : document.admits next = true) :
    redo document = (true, document.at
      ⟨document.contentSnapshot :: document.undoStack, next, rest⟩) := by
  rw [redo, held, List.dropWhile_cons_of_neg (by simp [admitted])]
  rfl

theorem Coherent.takesBack (coherent : Coherent codec session)
    (applied : applyCommand codec rules session.document decoded admission = .ok (true, after)) :
    TakesBack session.document after := by
  obtain ⟨same, _⟩ | ⟨_, candidate, diagnostics, made, different, identity⟩ :=
    applyCommand_cases applied
  · cases same
  · have undoable : after.admits session.document.contentSnapshot = true := by
      rw [made]
      exact coherent.admitted.present
    have redoable : after.admits after.contentSnapshot = true := by
      rw [made]
      refine admits_iff.mpr fun owner owned => ?_
      obtain ⟨id, packageId⟩ := admits_iff.mp coherent.admitted.present owner owned
      have owned : session.document.catalogIdentity = some owner := owned
      obtain ⟨sameId, samePackage⟩ := identity (by simp [owned])
      exact ⟨sameId.trans id, samePackage.trans packageId⟩
    have pushed : after.undoStack = session.document.contentSnapshot :: session.document.undoStack := by
      rw [made]
    have undone := undo_cons pushed undoable
    have redone := @redo_cons (undo after).2 after.contentSnapshot after.redoStack
      (by rw [undone]; rfl) (by rw [undone]; exact redoable)
    refine ⟨by rw [undone], by rw [undone]; rfl, by rw [redone], by rw [redone]; rfl⟩

theorem Coherent.exact (coherent : Coherent codec session)
    (alternating : Alternating session.document.timeline) : ExactHistory codec rules session where
  emission := coherent.emitted.present
  dirty := by
    have emission : session.document.currentYaml =
        emitAppDefinitionDraftYaml codec session.document.appDefinition := coherent.emitted.present
    rw [AppDefinitionDocument.isDirty, decide_eq_true_eq, coherent.baseline, emission]
  canUndo := by
    obtain ⟨none, same⟩ | ⟨some, moved, along, same⟩ := undo_eq coherent.admitted.past
    · simp [AppDefinitionDocument.canUndo, none, same]
    · have different : (session.document.at moved).currentYaml ≠ session.document.currentYaml :=
        (alternating.back along).2
      simp only [AppDefinitionDocument.canUndo, same]
      simpa [some] using different
  undoSucceeds := by
    obtain ⟨none, same⟩ | ⟨some, moved, along, same⟩ := undo_eq coherent.admitted.past
    · simp [AppDefinitionDocument.canUndo, none, same]
    · simp [AppDefinitionDocument.canUndo, some, same]
  canRedo := by
    obtain ⟨none, same⟩ | ⟨some, moved, along, same⟩ := redo_eq coherent.admitted.future
    · simp [AppDefinitionDocument.canRedo, none, same]
    · have different : (session.document.at moved).currentYaml ≠ session.document.currentYaml :=
        (alternating.forward along).2
      simp only [AppDefinitionDocument.canRedo, same]
      simpa [some] using different
  redoSucceeds := by
    obtain ⟨none, same⟩ | ⟨some, moved, along, same⟩ := redo_eq coherent.admitted.future
    · simp [AppDefinitionDocument.canRedo, none, same]
    · simp [AppDefinitionDocument.canRedo, some, same]
  takesBack := fun _ _ _ applied => coherent.takesBack applied
  identity := fun identity owned => admits_iff.mp coherent.admitted.present identity owned

/-- In every session of an opened document in which each publication as a catalog App settles, the
history is exact, and from the moment the document belongs to a catalog it stays the same App. -/
theorem history_exact (codec : YamlCodec) (rules : ContentRules)
    (openedFile : OpenedAppDefinitionFile) (authoredRoot catalogRoot : Option FilePath)
    (document : AppDefinitionDocument)
    (opened : openDocument codec rules openedFile authoredRoot catalogRoot = .ok document)
    (events : List Event) (settles : RunSettles codec rules (openedSession document) events) :
    ExactHistory codec rules ((openedSession document).run codec rules events) ∧
      ∀ earlier later, events = earlier ++ later → ∀ identity,
        ((openedSession document).run codec rules earlier).document.catalogIdentity = some identity →
        ((openedSession document).run codec rules events).document.appDefinition.id = identity.id ∧
          ((openedSession document).run codec rules events).document.appDefinition.packageId =
            identity.packageId := by
  obtain ⟨coherent, alternating⟩ := openDocument_cases opened
  refine ⟨coherent.run.exact (alternating_run coherent settles alternating), ?_⟩
  rintro earlier later rfl identity owned
  obtain ⟨last, lastOwned, id, packageId⟩ := @identity_run codec rules _ later coherent.run _ owned
  have run : (openedSession document).run codec rules (earlier ++ later) =
      ((openedSession document).run codec rules earlier).run codec rules later :=
    List.foldl_append
  obtain ⟨sameId, samePackage⟩ := admits_iff.mp
    (@Coherent.run codec rules _ later (@Coherent.run codec rules _ earlier coherent)).admitted.present
    last lastOwned
  rw [run]
  exact ⟨sameId.trans id, samePackage.trans packageId⟩

def clearAdmission : AppDefinitionSaveAdmission := ⟨some ⟨[], []⟩, false, []⟩

def standaloneFile : OpenedAppDefinitionFile := ⟨["downloads", "retroarch.yaml"], some authoredText⟩

def standaloneDocument : AppDefinitionDocument where
  path := ["downloads", "retroarch.yaml"]
  authoredRoot := some ["catalog"]
  catalogIdentity := none
  appDefinition := sampleDefinition
  currentYaml := emittedText "retroarch"
  savedYaml := emittedText "retroarch"
  openedFile := standaloneFile
  diagnostics := []
  undoStack := []
  redoStack := []

theorem openDocument_standalone :
    openDocument sampleCodec sampleRules standaloneFile (some ["catalog"]) none =
      .ok standaloneDocument := by
  refine Checks.bind_eq_ok.mpr ⟨authoredText, rfl, ?_⟩
  have header : incompatibleHeader
      (documentTree [("invert_asset_pattern", .bool false)] [("clearable", .bool false)]) = false :=
    rfl
  rw [sampleCodec_authored, Option.any_some, if_neg (by simp [header])]
  refine Checks.bind_eq_ok.mpr ⟨sampleDefinition, mapError_eq_ok.mpr ?_, ?_⟩
  · rw [parseAppDefinitionYaml, sampleCodec_authored]
    rfl
  · have text : emitAppDefinitionDraftYaml sampleCodec sampleDefinition =
        emittedText "retroarch" := by decide +kernel
    simp only [text]
    rfl

def publication : Event :=
  .saveAs (.ok ()) clearAdmission
    (.ok ⟨["catalog", "apps", "retroarch.yaml"], some (emittedText "retroarch")⟩) []

def renamedAndPublished : List Event :=
  [.command (.ok (.setId "retroarch64")) clearAdmission, .undo, publication, .redo]

theorem history_exact_sample :
    let session := (openedSession standaloneDocument).run sampleCodec sampleRules renamedAndPublished
    ExactHistory sampleCodec sampleRules session ∧ session.document.appDefinition.id = "retroarch" ∧
      session.document.appDefinition.packageId = "com.retroarch" := by
  have settles : RunSettles sampleCodec sampleRules (openedSession standaloneDocument)
      renamedAndPublished :=
    ⟨trivial, trivial, fun _ _ => ⟨by decide +kernel, by decide +kernel⟩, trivial, trivial⟩
  obtain ⟨exact, fixed⟩ := history_exact sampleCodec sampleRules standaloneFile (some ["catalog"])
    none standaloneDocument openDocument_standalone renamedAndPublished settles
  exact ⟨exact, fixed (renamedAndPublished.take 3) [.redo] rfl
    ⟨"retroarch", "com.retroarch", ["catalog", "apps", "retroarch.yaml"], ["catalog"]⟩
    (by decide +kernel)⟩

def renamedTwiceAndPublished : List Event :=
  [.command (.ok (.setId "retroarch64")) clearAdmission,
    .command (.ok (.setId "retroarch")) clearAdmission, publication]

def publishedSession : Session :=
  (openedSession standaloneDocument).run sampleCodec sampleRules renamedTwiceAndPublished

/-- The publication drops the content with the other id, and undo returns to the same text. -/
theorem undo_without_change :
    publishedSession.document.canUndo = true ∧ (undo publishedSession.document).1 = true ∧
      (undo publishedSession.document).2.currentYaml = publishedSession.document.currentYaml ∧
      ¬ExactHistory sampleCodec sampleRules publishedSession := by
  have facts : publishedSession.document.canUndo = true ∧
      (undo publishedSession.document).1 = true ∧
      (undo publishedSession.document).2.currentYaml = publishedSession.document.currentYaml := by
    decide +kernel
  obtain ⟨offered, undone, same⟩ := facts
  exact ⟨offered, undone, same, fun exact => exact.canUndo.mp offered same⟩

end

end EmuChef.Definition
