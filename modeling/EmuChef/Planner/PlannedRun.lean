import EmuChef.Planner.DataFlow

/-! Runs of the plans that the planner returns. -/

namespace EmuChef.Planner

open Executor

section

variable {host : Host} {checks : AuthorityChecks} {input : PlannerInput}
  {appDefinitions : List Authored.AppDefinition} {mode : PlanningMode} {plan : ExecutionPlan}
  {warnings : List PlannerMessage} {events : List RunnerEvent} {result : ExecutionRunResult}

theorem refused_or_ended (ran : Program.Runs (runWithProgressAndCancel plan) events result) :
    (∃ failed blocked, result = refusePlan plan failed blocked) ∨
      ∃ state seen, Ended plan state seen ∧ result = finish plan state := by
  obtain ⟨ended, before, after, body, last, rfl⟩ := Program.runs_bind.mp ran
  obtain ⟨rfl, rfl⟩ := Program.runs_pure.mp last
  rcases Program.attempts_bind.mp body with
    ⟨refusal, stopped, rfl⟩ | ⟨_, seen, more, passed, rest, rfl⟩
  · exact .inl (admitPlan_error stopped)
  · rcases Program.attempts_bind.mp rest with
      ⟨_, stopped, _⟩ | ⟨state, looped, tail, lifted, finished, rfl⟩
    · obtain ⟨_, _, impossible⟩ := Program.attempts_lift.mp stopped
      exact nomatch impossible
    obtain ⟨_, steps, same⟩ := Program.attempts_lift.mp lifted
    cases same
    obtain ⟨rfl, rfl⟩ := Program.attempts_pure.mp finished
    exact .inr ⟨_, _, ended_runSteps steps, rfl⟩

theorem not_isDone_refused {failed blocked : String} {record : StepRunRecord}
    (member : record ∈ (refusePlan plan failed blocked).steps) : ¬ IsDone record.status := by
  obtain ⟨item, _, rfl⟩ := List.mem_map.mp member
  split <;> simp [IsDone]

theorem stepId_at {records : List StepRunRecord} {position : Nat} {record : StepRunRecord}
    (recorded : records.map (·.stepId) <+: plan.steps.map (·.id))
    (here : records[position]? = some record) :
    ∃ step, plan.steps[position]? = some step ∧ step.id = record.stepId := by
  obtain ⟨inside, rfl⟩ := List.getElem?_eq_some_iff.mp here
  have named := List.prefix_iff_getElem?.mp recorded position (by simpa using inside)
  simpa using named

/-- In every run of a plan that the planner returned no step is recorded twice, and a step that is
executed or skipped has each of its dependencies recorded so. -/
theorem planned_run_inOrder
    (success : planExecutionWithAppDefinitions host checks input appDefinitions =
      .ok (.success plan warnings))
    (ran : Program.Runs (runWithProgressAndCancel plan) events result) :
    (result.steps.map (·.stepId)).Nodup ∧
      ∀ step ∈ plan.steps, ∀ record ∈ result.steps, record.stepId = step.id → IsDone record.status →
        ∀ dependency ∈ step.dependencies,
          ∃ other ∈ result.steps, other.stepId = dependency ∧ IsDone other.status := by
  obtain ⟨prepared, selected, chosen, ordered, done⟩ := succeeds_of_success success
  have distinct := done.step_ids_nodup
  rcases refused_or_ended ran with ⟨failed, blocked, rfl⟩ | ⟨state, seen, ended, rfl⟩
  · rw [refusePlan_steps]
    exact ⟨distinct, fun _ _ record member _ finished =>
      absurd finished (not_isDone_refused member)⟩
  obtain ⟨_, count, going, _⟩ := ended.going
  have recorded : state.records.map (·.stepId) <+: plan.steps.map (·.id) := by
    rw [going.recorded, List.map_take]
    exact List.take_prefix _ _
  refine ⟨distinct.sublist recorded.sublist, ?_⟩
  intro step member record listed same finished dependency named
  obtain ⟨position, here⟩ := List.getElem?_of_mem listed
  obtain ⟨found, at_, foundId⟩ := stepId_at recorded here
  obtain ⟨place, there⟩ := List.getElem?_of_mem member
  obtain rfl := index_of_id distinct there at_ (same.symm.trans foundId.symm)
  obtain ⟨earlier, other, depends, otherAt, rfl⟩ :=
    exists_dependsOn done.dependenciesEarlier there named
  obtain ⟨before, beforeAt, status⟩ :=
    going.closed place ⟨record, here, finished⟩ earlier depends
  obtain ⟨item, itemAt, itemId⟩ := stepId_at recorded beforeAt
  obtain rfl := Option.some.inj (itemAt.symm.trans otherAt)
  exact ⟨before, List.mem_of_getElem? beforeAt, itemId.symm, status⟩

end

def resolvedArtifact : PlannerInput :=
  plainInput (plainRecipe "games" [] [("pack", .remoteFile "https://example.org/pack.zip" "default")]
    [plainStep "copy" "copy_files" ["resolve"]
      [("source", .ref "artifacts.pack.local_path"), ("dest", .literal (.string "/sdcard/games"))],
    plainStep "resolve" "resolve_artifacts" [] [("artifacts", .literal (.array [.string "pack"]))]])
    []

theorem planned_run_inOrder_sample : ∃ plan ∈ plannedPlan
    (planExecutionWithAppDefinitions bareHost lenientChecks resolvedArtifact []),
    plan.steps.map (·.dependencies) = [[], ["games/resolve"]] ∧
      ∃ events result, Program.Runs (runWithProgressAndCancel plan) events result ∧
        (result.steps.map (·.stepId)).Nodup ∧
        ∀ step ∈ plan.steps, ∀ record ∈ result.steps, record.stepId = step.id →
          IsDone record.status → ∀ dependency ∈ step.dependencies,
            ∃ other ∈ result.steps, other.stepId = dependency ∧ IsDone other.status := by
  have planned : ∃ plan ∈ plannedPlan
      (planExecutionWithAppDefinitions bareHost lenientChecks resolvedArtifact []),
      plan.steps.map (·.dependencies) = [[], ["games/resolve"]] := by decide +kernel
  obtain ⟨plan, planned, depends⟩ := planned
  obtain ⟨warnings, success⟩ := plannedPlan_eq_some.mp planned
  obtain ⟨events, result, ran, _⟩ :=
    Program.exists_runs_answers smoothAnswers (runWithProgressAndCancel plan)
  exact ⟨plan, planned, depends, events, result, ran, planned_run_inOrder success ran⟩

end EmuChef.Planner
