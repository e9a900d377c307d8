import EmuChef.Executor.FailureLaw
import EmuChef.Session.ReportLaw

/-! What the report of a run counts: its completed and its failed steps, and the issues that the
failed ones raise. -/

namespace EmuChef.Session

open Planner Executor Program

variable {plan : ExecutionPlan}

def FailedStarted (records : List StepRunRecord) (progress : List ExecutionProgressEvent) : Prop :=
  ∀ record ∈ records, record.status = .failed → Started progress record.stepId

theorem started_append {progress more : List ExecutionProgressEvent} {stepId : String}
    (started : Started progress stepId) : Started (progress ++ more) stepId := by
  obtain ⟨event, member, same⟩ := started
  exact ⟨event, List.mem_append_left _ member, same⟩

theorem failedStarted_round {state : RunnerState} {item : ExecutionStep × Nat}
    {seen more : List WorkerEvent} {result : Except RunnerState RunnerState}
    (before : FailedStarted state.records (notes seen))
    (ran : Attempts (reportScheduled plan state item) more result) :
    FailedStarted (stateOf result).records (notes (seen ++ more)) := by
  have kept : ∀ record ∈ state.records, record.status = .failed →
      Started (notes (seen ++ more)) record.stepId := by
    intro record member failed
    rw [notes_append]
    exact started_append (before record member failed)
  rcases attempts_reportScheduled ran with ⟨status, message, passes, rfl, quiet⟩ |
    ⟨asked, inner, ended, attempted, settled, quiet, rfl⟩
  · intro record member failed
    rcases List.mem_append.mp member with old | new
    · exact kept record old failed
    · obtain rfl := List.mem_singleton.mp new
      rcases passes with rfl | rfl
      · cases failed
      · cases failed
  · have state_eq : stateOf result = state.settle item.1 (outcomeOf ended) := by
      rw [settled]
      split
      · rfl
      · rfl
    rw [state_eq]
    intro record member failed
    rcases List.mem_append.mp member with old | new
    · exact kept record old failed
    · obtain rfl := List.mem_singleton.mp new
      refine ⟨finishedProgress item.1 (outcomeOf ended), ?_, rfl⟩
      simp [notes, noted]

theorem failedStarted_reportSteps {events : List WorkerEvent}
    {result : Except RunnerState RunnerState} (ran : Attempts (reportSteps plan) events result) :
    FailedStarted (stateOf result).records (notes events) := by
  have rounds := attempts_foldlM
    (fun _ state seen => FailedStarted state.records (notes seen))
    (fun _ impossible => absurd impossible List.not_mem_nil)
    (fun passed item rest state seen split before more next body => by
      have extended := failedStarted_round before body
      exact extended) ran
  rcases rounds with ⟨state, rfl, holds⟩ |
    ⟨passed, item, rest, state, seen, more, stop, split, holds, body, rfl, rfl⟩
  · exact holds
  · exact failedStarted_round holds body

theorem failedStarted_runReporting {events : List WorkerEvent} {result : ExecutionRunResult}
    (ran : Runs (runReporting plan) events result) :
    ((∃ failed blocked, result = refusePlan plan failed blocked) ∧ notes events = [] ∧
      ∀ event ∈ operations events, isStepWork event.operation = false) ∨
    FailedStarted result.steps (notes events) := by
  rcases Program.runs_guarded ran with
    ⟨refusal, stopped, rfl⟩ | ⟨state, seen, more, passed, steps, rfl, rfl⟩
  · obtain ⟨inner, refused, rfl⟩ := attempts_reporting.mp stopped
    refine .inl ⟨admitPlan_error refused, notes_silent inner, ?_⟩
    rw [operations_flatMap_shown]
    have quiet : Only (fun operation => isStepWork operation = false) (admitPlan plan).run :=
      only_admitPlan plan rfl rfl
    exact quiet.events refused
  · obtain ⟨inner, _, rfl⟩ := attempts_reporting.mp passed
    rw [notes_append, notes_silent, List.nil_append]
    exact .inr (failedStarted_reportSteps steps)

theorem stepStatus_injective {first second : StepRunStatus}
    (same : stepStatus first = stepStatus second) : first = second := by
  cases first <;> cases second <;> first | rfl | cases same

theorem countP_status {steps : List ExecutionStepReport} {records : List StepRunRecord}
    {progress : List ExecutionProgressEvent} {ids : List String} {run : StepRunStatus}
    (unique : ids.Nodup) (listed : (steps.map (·.stepId)).Perm ids)
    (recorded : records.map (·.stepId) <+: ids) (told : Told records progress)
    (statuses : ∀ step ∈ steps, step.status = shownStatus progress step.stepId)
    (started : ∀ record ∈ records, record.status = run → Started progress record.stepId)
    (shown : stepStatus run ≠ .pending) :
    steps.countP (fun step => step.status = stepStatus run) =
      records.countP fun record => record.status = run := by
  have stepIds : (steps.map (·.stepId)).Nodup := listed.nodup_iff.mpr unique
  have recordIds : (records.map (·.stepId)).Nodup := unique.sublist recorded.sublist
  have members : ∀ id, id ∈ (steps.filter fun step => step.status = stepStatus run).map (·.stepId) ↔
      id ∈ (records.filter fun record => record.status = run).map (·.stepId) := by
    intro id
    simp only [List.mem_map, List.mem_filter, decide_eq_true_eq]
    constructor
    · rintro ⟨step, ⟨member, status⟩, rfl⟩
      have known := (statuses step member).symm.trans status
      obtain ⟨event, noted, named⟩ : Started progress step.stepId := by
        by_contra other
        exact shown (known.symm.trans (shownStatus_of_not_started other))
      obtain ⟨record, held, same⟩ := told.recorded event noted
      refine ⟨record, ⟨held, ?_⟩, same.trans named⟩
      have agrees := told.agrees record held ⟨event, noted, same.symm⟩
      rw [same, named, known] at agrees
      exact (stepStatus_injective agrees).symm
    · rintro ⟨record, ⟨held, status⟩, rfl⟩
      have inside : record.stepId ∈ steps.map (·.stepId) :=
        listed.mem_iff.mpr (recorded.subset (List.mem_map.mpr ⟨record, held, rfl⟩))
      obtain ⟨step, member, same⟩ := List.mem_map.mp inside
      refine ⟨step, ⟨member, ?_⟩, same⟩
      rw [statuses step member, same, told.agrees record held (started record held status), status]
  have filtered := (List.perm_ext_iff_of_nodup
    (stepIds.sublist (List.filter_sublist.map _)) (recordIds.sublist (List.filter_sublist.map _))).mpr
    members
  have lengths := filtered.length_eq
  rwa [List.length_map, List.length_map, ← List.countP_eq_length_filter,
    ← List.countP_eq_length_filter] at lengths

def raisedError (record : StepRunRecord) : Option (String × String) :=
  if record.status = .failed ∨ record.status = .blocked then
    some (issueCode record.status record.message record.failureKind,
      record.message.getD "Required execution work did not complete.")
  else none

theorem finishStep_errors {report : ExecutionReport} {record : StepRunRecord} :
    (finishStep report record).errors.map (fun issue => (issue.code, issue.message)) =
      report.errors.map (fun issue => (issue.code, issue.message)) ++ (raisedError record).toList := by
  unfold finishStep raisedError
  cases status : record.status with
  | failed => simp
  | blocked => simp
  | executed => simp
  | skipped => simp
  | cancelled => simp

theorem finishSteps_errors {records : List StepRunRecord} {report : ExecutionReport} :
    (records.foldl finishStep report).errors.map (fun issue => (issue.code, issue.message)) =
      report.errors.map (fun issue => (issue.code, issue.message)) ++
        records.filterMap raisedError := by
  induction records generalizing report with
  | nil => simp
  | cons record rest ih =>
    rw [List.foldl_cons, ih, finishStep_errors, List.append_assoc, List.filterMap_cons]
    cases raisedError record with
    | none => rfl
    | some raised => rfl

end EmuChef.Session
