import EmuChef.Lib.Program

/-! Programs that report notes while they run, and programs taken one operation at a time. -/

namespace EmuChef.Program

variable {Op Note : Type} {Response : Op → Type} {α β ε : Type}

/-- An operation of the program, or a note that it reports to whoever watches it. -/
inductive Reporting (Op Note : Type) where
  | operation (operation : Op)
  | report (note : Note)

abbrev Reporting.Answer (Response : Op → Type) : Reporting Op Note → Type
  | operation issued => Response issued
  | report _ => Unit

abbrev Reporter (Op Note : Type) (Response : Op → Type) (α : Type) :=
  Program (Reporting Op Note) (Reporting.Answer Response) α

abbrev ReportingEvent (Op Note : Type) (Response : Op → Type) :=
  Event (Reporting Op Note) (Reporting.Answer Response)

def announce (note : Note) : Reporter Op Note Response Unit := request (Reporting.report note)

def reporting (noteOf : Op → Option Note) : Program Op Response α → Reporter Op Note Response α
  | done value => done value
  | call issued next =>
      let rest : Reporter Op Note Response α :=
        call (Reporting.operation issued) fun response => reporting noteOf (next response)
      match noteOf issued with
      | some note => call (Reporting.report note) fun _ => rest
      | none => rest

def reportingAttempt (noteOf : Op → Option Note) (attempt : Attempt Op Response ε α) :
    Attempt (Reporting Op Note) (Reporting.Answer Response) ε α :=
  ExceptT.mk (reporting noteOf attempt.run)

section

def noted (note : Note) : ReportingEvent Op Note Response := ⟨.report note, ()⟩

def issued (event : Event Op Response) : ReportingEvent Op Note Response :=
  ⟨.operation event.operation, event.response⟩

def shown (noteOf : Op → Option Note) (event : Event Op Response) :
    List (ReportingEvent Op Note Response) :=
  (noteOf event.operation).toList.map noted ++ [issued event]

def notes (events : List (ReportingEvent Op Note Response)) : List Note :=
  events.filterMap fun
    | ⟨.report note, _⟩ => some note
    | ⟨.operation _, _⟩ => none

def operations (events : List (ReportingEvent Op Note Response)) : List (Event Op Response) :=
  events.filterMap fun
    | ⟨.report _, _⟩ => none
    | ⟨.operation issued, response⟩ => some ⟨issued, response⟩

variable {before events : List (ReportingEvent Op Note Response)}

theorem mem_of_operations {event : Event Op Response} (member : event ∈ operations events) :
    issued event ∈ events := by
  obtain ⟨⟨operation, response⟩, inside, same⟩ := List.mem_filterMap.mp member
  cases operation with
  | report note => exact nomatch same
  | operation operation =>
      cases same
      exact inside

@[simp] theorem notes_append {after : List (ReportingEvent Op Note Response)} :
    notes (before ++ after) = notes before ++ notes after := by
  simp [notes]

@[simp] theorem operations_append {after : List (ReportingEvent Op Note Response)} :
    operations (before ++ after) = operations before ++ operations after := by
  simp [operations]

variable {noteOf : Op → Option Note}

theorem notes_shown (event : Event Op Response) :
    notes (shown noteOf event) = (noteOf event.operation).toList := by
  cases noted : noteOf event.operation with
  | none => simp [shown, notes, noted, issued]
  | some note => simp [shown, notes, noted, issued, Program.noted]

theorem operations_shown (event : Event Op Response) :
    operations (shown noteOf event) = [event] := by
  cases noted : noteOf event.operation with
  | none => simp [shown, operations, noted, issued]
  | some note => simp [shown, operations, noted, issued, Program.noted]

theorem notes_flatMap_shown (events : List (Event Op Response)) :
    notes (events.flatMap (shown noteOf)) =
      events.filterMap fun event => noteOf event.operation := by
  induction events with
  | nil => rfl
  | cons event rest ih =>
      rw [List.flatMap_cons, notes_append, notes_shown, ih, List.filterMap_cons]
      cases noteOf event.operation with
      | none => rfl
      | some note => rfl

theorem operations_flatMap_shown (events : List (Event Op Response)) :
    operations (events.flatMap (shown noteOf)) = events := by
  induction events with
  | nil => rfl
  | cons event rest ih => rw [List.flatMap_cons, operations_append, operations_shown, ih]; rfl

theorem runs_reporting {program : Program Op Response α} {result : α} :
    Runs (reporting noteOf program) events result ↔
      ∃ inner, Runs program inner result ∧ events = inner.flatMap (shown noteOf) := by
  induction program generalizing events with
  | done value =>
      constructor
      · intro ran
        cases ran
        exact ⟨[], .done _, rfl⟩
      · rintro ⟨inner, ran, rfl⟩
        cases ran
        exact .done _
  | call operation next ih =>
      have rest : ∀ {events : List (ReportingEvent Op Note Response)},
          Runs (call (Reporting.operation operation) fun response =>
              reporting noteOf (next response)) events result ↔
            ∃ response inner, Runs (next response) inner result ∧
              events = issued ⟨operation, response⟩ :: inner.flatMap (shown noteOf) := by
        intro events
        constructor
        · intro ran
          cases ran with
          | call response tail =>
              obtain ⟨inner, ran, rfl⟩ := (ih response).mp tail
              exact ⟨response, inner, ran, rfl⟩
        · rintro ⟨response, inner, ran, rfl⟩
          have tail := (ih response).mpr ⟨inner, ran, rfl⟩
          exact @Runs.call _ _ _ (.operation operation)
            (fun response => reporting noteOf (next response)) _ _ response tail
      have inner_call : (∃ inner, Runs (call operation next) inner result ∧
          events = inner.flatMap (shown noteOf)) ↔
            ∃ response inner, Runs (next response) inner result ∧
              events = shown noteOf ⟨operation, response⟩ ++ inner.flatMap (shown noteOf) := by
        constructor
        · rintro ⟨inner, ran, rfl⟩
          cases ran with
          | call response tail => exact ⟨response, _, tail, rfl⟩
        · rintro ⟨response, inner, ran, rfl⟩
          exact ⟨_, .call response ran, rfl⟩
      rw [inner_call, reporting]
      cases noted : noteOf operation with
      | none => simpa [shown, noted] using rest
      | some note =>
          constructor
          · intro ran
            cases ran with
            | call _ tail =>
                obtain ⟨response, inner, ran, rfl⟩ := rest.mp tail
                exact ⟨response, inner, ran, by simp [shown, noted, Program.noted]⟩
          · rintro ⟨response, inner, ran, rfl⟩
            simp only [shown, noted, Option.toList_some, List.map_cons, List.map_nil,
              List.cons_append, List.nil_append]
            have tail := rest.mpr ⟨response, inner, ran, rfl⟩
            exact @Runs.call _ _ _ (.report note) (fun _ => call (.operation operation)
              fun response => reporting noteOf (next response)) _ _ () tail

theorem attempts_reporting {attempt : Attempt Op Response ε α} {result : Except ε α} :
    Attempts (reportingAttempt noteOf attempt) events result ↔
      ∃ inner, Attempts attempt inner result ∧ events = inner.flatMap (shown noteOf) :=
  runs_reporting

end

section

variable {noteOf : Op → Option Note}

def Reports (outer : Reporter Op Note Response α) (inner : Program Op Response α) : Prop :=
  ∀ events result, Runs outer events result → Runs inner (operations events) result

theorem reports_pure (value : α) :
    Reports (pure value : Reporter Op Note Response α) (pure value) := by
  intro events result ran
  obtain ⟨rfl, rfl⟩ := runs_pure.mp ran
  exact runs_pure.mpr ⟨rfl, rfl⟩

theorem reports_bind {outer : Reporter Op Note Response α} {inner : Program Op Response α}
    {outerNext : α → Reporter Op Note Response β} {innerNext : α → Program Op Response β}
    (first : Reports outer inner) (last : ∀ value, Reports (outerNext value) (innerNext value)) :
    Reports (outer >>= outerNext) (inner >>= innerNext) := by
  intro events result ran
  obtain ⟨value, before, after, head, tail, rfl⟩ := runs_bind.mp ran
  rw [operations_append]
  exact runs_bind.mpr ⟨value, _, _, first _ _ head, last value _ _ tail, rfl⟩

theorem reports_reporting (program : Program Op Response α) :
    Reports (reporting noteOf program) program := by
  intro events result ran
  obtain ⟨inner, body, rfl⟩ := runs_reporting.mp ran
  rwa [operations_flatMap_shown]

theorem reports_attempt_bind
    {outer : Attempt (Reporting Op Note) (Reporting.Answer Response) ε α}
    {inner : Attempt Op Response ε α}
    {outerNext : α → Attempt (Reporting Op Note) (Reporting.Answer Response) ε β}
    {innerNext : α → Attempt Op Response ε β} (first : Reports outer.run inner.run)
    (last : ∀ value, Reports (outerNext value).run (innerNext value).run) :
    Reports (outer >>= outerNext).run (inner >>= innerNext).run := by
  refine reports_bind first fun ended => ?_
  cases ended with
  | ok value => exact last value
  | error stop => exact reports_pure _

theorem reports_attempt_lift {outer : Reporter Op Note Response α} {inner : Program Op Response α}
    (each : Reports outer inner) :
    Reports (ExceptT.lift outer : Attempt _ _ ε α).run
      (ExceptT.lift inner : Attempt _ _ ε α).run :=
  reports_bind each fun _ => reports_pure _

theorem reports_attempt_foldlM {items : List α}
    {outer : β → α → Attempt (Reporting Op Note) (Reporting.Answer Response) ε β}
    {inner : β → α → Attempt Op Response ε β} {state : β}
    (each : ∀ state item, Reports (outer state item).run (inner state item).run) :
    Reports (items.foldlM outer state).run (items.foldlM inner state).run := by
  induction items generalizing state with
  | nil => exact reports_pure _
  | cons item rest ih =>
      rw [List.foldlM_cons, List.foldlM_cons]
      exact reports_attempt_bind (each state item) fun _ => ih

end

/-- What is left of a program after the first events of one of its traces. -/
inductive Leaves : Program Op Response α → List (Event Op Response) → Program Op Response α → Prop
  | here (program : Program Op Response α) : Leaves program [] program
  | call {operation next events rest} (response : Response operation) :
      Leaves (next response) events rest →
      Leaves (Program.call operation next) (⟨operation, response⟩ :: events) rest

theorem Leaves.answer {program : Program Op Response α} {events : List (Event Op Response)}
    {operation : Op} {next : Response operation → Program Op Response α}
    (left : Leaves program events (Program.call operation next)) (response : Response operation) :
    Leaves program (events ++ [⟨operation, response⟩]) (next response) := by
  generalize rest_eq : Program.call operation next = rest at left
  induction left with
  | here program =>
      subst rest_eq
      exact .call response (.here _)
  | call answer _ ih => exact .call answer (ih rest_eq)

theorem Leaves.runs {program : Program Op Response α} {events : List (Event Op Response)} {value : α}
    (left : Leaves program events (done value)) : Runs program events value := by
  generalize rest_eq : (done value : Program Op Response α) = rest at left
  induction left with
  | here program =>
      subst rest_eq
      exact .done value
  | call answer _ ih => exact .call answer (ih rest_eq)

theorem Leaves.append {program rest : Program Op Response α} {events more : List (Event Op Response)}
    {value : α} (left : Leaves program events rest) (ran : Runs rest more value) :
    Runs program (events ++ more) value := by
  induction left with
  | here _ => exact ran
  | call response _ ih => exact .call response (ih ran)

end EmuChef.Program
