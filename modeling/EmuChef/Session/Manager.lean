import EmuChef.Session.Worker

/-! The session manager: one execution at a time, its worker, and the callers who start, cancel
and poll while it runs. -/

namespace EmuChef.Session

open Planner Executor Program

structure SessionState where
  nextExecutionId : Nat
  activeExecutionId : Option String
  records : OrderedMap String ExecutionRecord

def executionName (number : Nat) : String := "execution-" ++ toString number

def SessionState.start (state : SessionState) (reviewed : ReviewedPlan) (mode : ExecutionMode) :
    SessionState :=
  let number := state.nextExecutionId + 1
  let executionId := executionName number
  let record : ExecutionRecord := ⟨initialReport executionId reviewed mode, [], false⟩
  { nextExecutionId := number
    activeExecutionId := some executionId
    records := state.records.insert executionId (appendEvent record (startedBody mode)) }

def SessionState.update (state : SessionState) (executionId : String)
    (change : ExecutionRecord → ExecutionRecord) : SessionState :=
  match state.records.get? executionId with
  | none => state
  | some record => { state with records := state.records.insert executionId (change record) }

def cancelRecord (record : ExecutionRecord) : ExecutionRecord :=
  if record.report.status ≠ .running then record
  else appendEvent { record with cancelRequested := true } cancelBody

def SessionState.release (state : SessionState) (executionId : String) : SessionState :=
  if state.activeExecutionId = some executionId then { state with activeExecutionId := none }
  else state

def eventsAfter (record : ExecutionRecord) (afterSequence : Nat) : List ExecutionEvent :=
  record.events.filter fun event => event.sequence > afterSequence

inductive WorkerPhase where
  | running (rest : Worker ExecutionRunResult)
  /-- The report is finished; the worker still holds the slot. -/
  | reported

structure WorkerThread where
  executionId : String
  phase : WorkerPhase

structure Reader where
  executionId : String
  received : List ExecutionEvent

def Reader.lastSeen (reader : Reader) : Nat :=
  (reader.received.getLast?.map (·.sequence)).getD 0

/-- The sidecar process: the manager's state, the worker threads, the readers, and what the
workers that did not panic returned. -/
structure World where
  state : SessionState
  workers : List WorkerThread
  readers : List Reader
  results : List (String × ExecutionRunResult)

def World.initial : World := ⟨⟨0, none, .empty⟩, [], [], []⟩

def World.record? (world : World) (executionId : String) : Option ExecutionRecord :=
  world.state.records.get? executionId

/-- The worker reads the cancel flag of its own record; anything else is up to device and host. -/
def Answers (record : ExecutionRecord) :
    (operation : RunnerOperation) → RunnerOperation.Response operation → Prop
  | .shouldCancel, response => response = record.cancelRequested
  | _, _ => True

inductive WorldStep : World → World → Prop
  | start (world : World) (reviewed : ReviewedPlan) (mode : ExecutionMode) :
      world.state.activeExecutionId = none →
      WorldStep world
        { world with
          state := world.state.start reviewed mode
          workers := world.workers ++ [⟨executionName (world.state.nextExecutionId + 1),
            .running (runReporting reviewed.plan)⟩] }
  | operate (world : World) (before after : List WorkerThread) (executionId : String)
      (record : ExecutionRecord) (issued : RunnerOperation)
      (next : RunnerOperation.Response issued → Worker ExecutionRunResult)
      (response : RunnerOperation.Response issued) :
      world.workers = before ++ ⟨executionId, .running (.call (.operation issued) next)⟩ :: after →
      world.record? executionId = some record → Answers record issued response →
      WorldStep world
        { world with workers := before ++ ⟨executionId, .running (next response)⟩ :: after }
  | report (world : World) (before after : List WorkerThread) (executionId : String)
      (event : ExecutionProgressEvent) (next : Unit → Worker ExecutionRunResult) :
      world.workers = before ++ ⟨executionId, .running (.call (.report event) next)⟩ :: after →
      WorldStep world
        { world with
          state := world.state.update executionId fun record => recordProgress record event
          workers := before ++ ⟨executionId, .running (next ())⟩ :: after }
  | finish (world : World) (before after : List WorkerThread) (executionId : String)
      (result : ExecutionRunResult) :
      world.workers = before ++ ⟨executionId, .running (.done result)⟩ :: after →
      WorldStep world
        { world with
          state := world.state.update executionId fun record => finishAttempt record result
          workers := before ++ ⟨executionId, .reported⟩ :: after
          results := world.results ++ [(executionId, result)] }
  | panic (world : World) (before after : List WorkerThread) (executionId : String)
      (rest : Worker ExecutionRunResult) :
      world.workers = before ++ ⟨executionId, .running rest⟩ :: after →
      WorldStep world
        { world with
          state := world.state.update executionId finishPanicked
          workers := before ++ ⟨executionId, .reported⟩ :: after }
  | release (world : World) (before after : List WorkerThread) (executionId : String) :
      world.workers = before ++ ⟨executionId, .reported⟩ :: after →
      WorldStep world
        { world with
          state := world.state.release executionId
          workers := before ++ after }
  | cancel (world : World) (executionId : String) :
      WorldStep world { world with state := world.state.update executionId cancelRecord }
  | watch (world : World) (executionId : String) :
      WorldStep world { world with readers := world.readers ++ [⟨executionId, []⟩] }
  | poll (world : World) (before after : List Reader) (reader : Reader) (record : ExecutionRecord) :
      world.readers = before ++ reader :: after →
      world.record? reader.executionId = some record →
      WorldStep world
        { world with
          readers := before ++
            { reader with received := reader.received ++ eventsAfter record reader.lastSeen } ::
              after }

abbrev Reachable (world : World) : Prop := Relation.ReflTransGen WorldStep .initial world

def Announced (record : ExecutionRecord) (stepId : String) : Prop :=
  ∃ event ∈ record.events, event.eventType = "step_progress" ∧ event.stepId = some stepId

/-- The report of a run that returned: its steps show the run records of the steps that were
scheduled, and the others as never started. -/
structure ReportsRun (record : ExecutionRecord) (result : ExecutionRunResult) : Prop where
  ended : record.report.status ≠ .running
  listed : ∀ run ∈ result.steps, ∃ step ∈ record.report.steps, step.stepId = run.stepId
  scheduled : ∀ step ∈ record.report.steps, ∀ run ∈ result.steps, step.stepId = run.stepId →
    Announced record step.stepId → step.status = stepStatus run.status
  unscheduled : ∀ step ∈ record.report.steps, ¬Announced record step.stepId → step.status = .pending
  settled : ∀ step ∈ record.report.steps, step.status ≠ .running
  succeeded : record.report.status = .succeeded ∨ record.report.status = .succeededWithWarnings →
    ∀ step ∈ record.report.steps, step.status = .succeeded ∨ step.status = .skipped
  warned : ∀ warning ∈ record.report.warnings, ∃ run ∈ result.steps,
    warning.stepId = some run.stepId ∧ run.status = .executed

structure SessionLaw (world : World) : Prop where
  numbered : ∀ executionId record, world.record? executionId = some record →
    record.events.map (·.sequence) = List.range' 1 record.report.latestSequence
  received : ∀ reader ∈ world.readers, ∀ record,
    world.record? reader.executionId = some record →
      reader.received <+: record.events ∧
        reader.received ++ eventsAfter record reader.lastSeen = record.events
  reported : ∀ entry ∈ world.results, ∃ record, world.record? entry.1 = some record ∧
    ((record.report.reviewedPlan.plan.steps.map (·.id)).Nodup → ReportsRun record entry.2)
  exclusive : ∀ executionId record, world.record? executionId = some record →
    record.report.status = .running → world.state.activeExecutionId = some executionId

def KeepsTerminal (world : World) : Prop :=
  ∀ later, Relation.ReflTransGen WorldStep world later → ∀ executionId record,
    world.record? executionId = some record → record.report.status ≠ .running →
      later.record? executionId = some record

end EmuChef.Session
