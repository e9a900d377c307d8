import EmuChef.Session.RecordLaw

/-! Steps run one at a time: no state of the manager shows two of them as running. -/

namespace EmuChef.Session

open Planner Executor Program

section

variable {plan : ExecutionPlan} {progress block : List ExecutionProgressEvent}

/-- Whenever a step is heard of, no other one is shown as running. -/
def Serial (progress : List ExecutionProgressEvent) : Prop :=
  ∀ front event back, progress = front ++ event :: back → ∀ stepId ≠ event.stepId,
    shownStatus front stepId ≠ .running

def Idle (progress : List ExecutionProgressEvent) : Prop :=
  ∀ stepId, shownStatus progress stepId ≠ .running

theorem Serial.of_append (serial : Serial (progress ++ block)) : Serial progress := by
  rintro front event back rfl
  exact serial front event (back ++ block) (by simp)

theorem Serial.running_eq (serial : Serial progress) {first second : String}
    (here : shownStatus progress first = .running)
    (there : shownStatus progress second = .running) : first = second := by
  rcases List.eq_nil_or_concat' progress with rfl | ⟨front, event, rfl⟩
  · cases here
  · have last {stepId : String} (shown : shownStatus (front ++ [event]) stepId = .running) :
        stepId = event.stepId := by
      by_contra other
      rw [shownStatus_append] at shown
      · exact serial front event [] rfl stepId other shown
      · rintro ⟨_, member, same⟩
        obtain rfl := List.mem_singleton.mp member
        exact other same.symm
    exact (last here).trans (last there).symm

theorem serial_block {step : ExecutionStep} {outcome : StepOutcome} (serial : Serial progress)
    (idle : Idle progress) (own : ∀ event ∈ block, event.stepId = step.id) :
    Serial (progress ++ (block ++ [finishedProgress step outcome])) ∧
      Idle (progress ++ (block ++ [finishedProgress step outcome])) := by
  have named : ∀ event ∈ block ++ [finishedProgress step outcome], event.stepId = step.id := by
    intro event member
    rcases List.mem_append.mp member with early | late
    · exact own event early
    · rw [List.mem_singleton.mp late]
      rfl
  -- A part of the block says nothing of another step.
  have elsewhere {part : List ExecutionProgressEvent} {stepId : String}
      (inside : ∀ event ∈ part, event.stepId = step.id) (other : stepId ≠ step.id) :
      shownStatus (progress ++ part) stepId ≠ .running := by
    rw [shownStatus_append]
    · exact idle stepId
    · rintro ⟨event, member, same⟩
      exact other (same.symm.trans (inside event member))
  constructor
  · intro front event back split stepId other
    rcases List.append_eq_append_iff.mp split with ⟨part, rfl, whole⟩ | ⟨part, rfl, whole⟩
    · have inside : ∀ event ∈ part, event.stepId = step.id := by
        intro event member
        exact named event (by simp [whole, member])
      exact elsewhere inside (named event (by simp [whole]) ▸ other)
    · cases part with
      | nil =>
          rw [List.append_nil] at idle
          exact idle stepId
      | cons first rest =>
          obtain ⟨rfl, _⟩ := List.cons.inj whole
          exact serial front event rest rfl stepId other
  · intro stepId
    by_cases same : stepId = step.id
    · have last : shownStatus (progress ++ block ++ [finishedProgress step outcome]) step.id =
          stepStatus outcome.status := shownStatus_last.trans progressStepStatus_finished
      rw [same, ← List.append_assoc, last]
      cases outcome.status <;> simp [stepStatus]
    · exact elsewhere named same

theorem serial_round {state : RunnerState} {item : ExecutionStep × Nat}
    {seen more : List WorkerEvent} {result : Except RunnerState RunnerState}
    (serial : Serial (notes seen)) (idle : Idle (notes seen))
    (ran : Attempts (reportScheduled plan state item) more result) :
    Serial (notes (seen ++ more)) ∧ Idle (notes (seen ++ more)) := by
  rcases attempts_reportScheduled ran with
    ⟨_, _, _, _, quiet⟩ | ⟨asked, inner, ended, _, _, quiet, rfl⟩
  · rw [notes_append, quiet, List.append_nil]
    exact ⟨serial, idle⟩
  · simp only [notes_append, quiet, notes_flatMap_shown, List.nil_append]
    refine serial_block serial idle fun event member => ?_
    rcases List.mem_append.mp member with opened | called
    · obtain rfl := List.mem_singleton.mp opened
      rfl
    · obtain ⟨call, _, reported⟩ := List.mem_filterMap.mp called
      exact callProgress_stepId reported

theorem serial_reportSteps {events : List WorkerEvent} {result : Except RunnerState RunnerState}
    (ran : Attempts (reportSteps plan) events result) : Serial (notes events) := by
  have rounds := attempts_foldlM (fun _ _ seen => Serial (notes seen) ∧ Idle (notes seen))
    ⟨by simp [Serial, notes], by simp [Idle, notes, shownStatus]⟩
    (fun _ _ _ _ _ _ before _ _ body => serial_round before.1 before.2 body) ran
  rcases rounds with ⟨_, _, serial, _⟩ | ⟨_, _, _, _, _, _, _, _, before, body, _, rfl⟩
  · exact serial
  · exact (serial_round before.1 before.2 body).1

theorem serial_runReporting {events : List WorkerEvent} {result : ExecutionRunResult}
    (ran : Runs (runReporting plan) events result) : Serial (notes events) := by
  rcases Program.runs_guarded ran with
    ⟨refusal, stopped, rfl⟩ | ⟨state, seen, more, passed, steps, rfl, rfl⟩
  · obtain ⟨inner, _, rfl⟩ := attempts_reporting.mp stopped
    rw [notes_silent]
    simp [Serial]
  · obtain ⟨inner, _, rfl⟩ := attempts_reporting.mp passed
    rw [notes_append, notes_silent, List.nil_append]
    exact serial_reportSteps steps

/-- What a worker has reported so far is the beginning of what a whole run reports. -/
theorem serial_of_leaves {events : List WorkerEvent} {rest : Worker ExecutionRunResult}
    (left : Leaves (runReporting plan) events rest) : Serial (notes events) := by
  obtain ⟨more, result, ran, _⟩ := exists_runs_answers (workerAnswers true) rest
  have whole := serial_runReporting (left.append ran)
  rw [notes_append] at whole
  exact whole.of_append

end

section

variable {world : World}

def RunsStep (world : World) (executionId stepId : String) : Prop :=
  ∃ record, world.record? executionId = some record ∧ PlanUnique record ∧
    ∃ step ∈ record.report.steps, step.stepId = stepId ∧ step.status = .running

theorem settled_finishPanicked {record : ExecutionRecord} :
    ∀ step ∈ (finishPanicked record).report.steps, step.status ≠ .running := by
  intro step member running
  obtain ⟨recipe, listed, held⟩ := List.mem_flatMap.mp member
  obtain ⟨_, refreshed, rfl⟩ := List.mem_map.mp listed
  obtain ⟨_, _, rfl⟩ := List.mem_map.mp refreshed
  obtain ⟨before, _, rfl⟩ := List.mem_map.mp held
  unfold failRunning at running
  split at running
  · cases running
  · contradiction

theorem running_of_runsStep (reached : Reachable world) {executionId : String}
    {record : ExecutionRecord} (found : world.record? executionId = some record)
    (unique : PlanUnique record) {step : ExecutionStepReport} (listed : step ∈ record.report.steps)
    (shown : step.status = .running) : record.report.status = .running := by
  have settled : ∀ id record, world.record? id = some record → PlanUnique record →
      record.report.status ≠ .running → ∀ step ∈ record.report.steps, step.status ≠ .running :=
    reachable_records reached (fun _ _ _ _ ended => absurd rfl ended)
      (fun _ _ running _ _ ended => absurd running ended)
      (fun _ _ _ _ reports unique _ => (reports unique).settled)
      (fun _ _ _ _ _ => settled_finishPanicked) (fun _ running _ _ ended => absurd running ended)
  by_contra ended
  exact settled executionId record found unique ended step listed shown

def OneAtATime (world : World) : Prop :=
  ∀ executionId stepId other otherStep, RunsStep world executionId stepId →
    RunsStep world other otherStep → executionId = other ∧ stepId = otherStep ∧
      world.state.activeExecutionId = some executionId

/-- At every moment of the process the reports of all executions together show one step at most as
running, and it belongs to the active execution. -/
theorem reachable_oneAtATime (reached : Reachable world) : OneAtATime world := by
  rintro executionId stepId other otherStep ⟨record, found, unique, step, listed, rfl, shown⟩
    ⟨record', found', unique', step', listed', rfl, shown'⟩
  have running := running_of_runsStep reached found unique listed shown
  have running' := running_of_runsStep reached found' unique' listed' shown'
  cases (invariant_of_reachable reached).occupied with
  | idle _ _ terminal => exact absurd running (terminal executionId record found)
  | busy ownId phase held only active own follows others =>
      obtain rfl := others executionId record found running
      obtain rfl := others other record' found' running'
      cases found.symm.trans found'
      cases found.symm.trans own
      cases phase with
      | reported => exact absurd running follows
      | running rest =>
          obtain ⟨_, events, left, tracks⟩ := follows
          refine ⟨rfl, (serial_of_leaves left).running_eq ?_ ?_, active⟩
          · rw [← tracks.statuses unique step listed, shown]
          · rw [← tracks.statuses unique step' listed', shown']

/-- A second execution runs its first step after the first execution has ended. -/
theorem exists_runsStep : ∃ world, Reachable world ∧
    RunsStep world (executionName 2) "setup/first" ∧
    (world.record? (executionName 1)).isSome = true := by
  have again : WorldStep endedWorld endedWorld.begin := .start endedWorld chained .real rfl
  have admitted := (reachable_endedWorld.tail again).tail
    (.operate _ [] [] (executionName 2) _ .admitLocalInputs _ none rfl rfl trivial)
  have checked := (admitted.tail
    (.operate _ [] [] (executionName 2) _ .hostDirectories _ (fun _ => false) rfl rfl trivial)).tail
    (.operate _ [] [] (executionName 2) _ .hostDirectories _ (fun _ => false) rfl rfl trivial)
  have covered := (checked.tail
    (.operate _ [] [] (executionName 2) _ .hostDirectories _ (fun _ => false) rfl rfl trivial)).tail
    (.operate _ [] [] (executionName 2) _ .hostDirectories _ (fun _ => false) rfl rfl trivial)
  refine ⟨_, (covered.tail
    (.operate _ [] [] (executionName 2) _ .shouldCancel _ false rfl rfl rfl)).tail
    (.report _ [] [] (executionName 2) _ _ rfl), ?_, rfl⟩
  have unique : (chained.plan.steps.map (·.id)).Nodup := by decide
  exact ⟨_, rfl, unique, _, .head _, rfl, rfl⟩

theorem reachable_oneAtATime_sample : ∃ world, RunsStep world (executionName 2) "setup/first" ∧
    (world.record? (executionName 1)).isSome = true ∧
    ∀ other step, RunsStep world other step → other = executionName 2 ∧ step = "setup/first" := by
  obtain ⟨world, reached, runs, kept⟩ := exists_runsStep
  refine ⟨world, runs, kept, fun other step beside => ?_⟩
  obtain ⟨execution, same, _⟩ := reachable_oneAtATime reached _ _ _ _ runs beside
  exact ⟨execution.symm, same.symm⟩

end

end EmuChef.Session
