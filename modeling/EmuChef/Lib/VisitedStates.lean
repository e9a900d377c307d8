import EmuChef.Lib.FaultyWorld

/-! The states that a program passes through in a faulty world, and rules for what is true of
all of them. -/

namespace EmuChef

namespace FaultyWorld

open Program (Attempt)

variable {Op : Type} {Response : Op → Type} {σ α β ε : Type} {world : FaultyWorld Op Response σ}

/-- The runs of a program from a state, with the states after each of its calls. -/
inductive Visits (world : FaultyWorld Op Response σ) :
    Program Op Response α → σ → List σ → σ → α → Prop
  | done (value : α) (state : σ) : Visits world (.done value) state [] state value
  | call {operation : Op} {next : Response operation → Program Op Response α}
      {response : Response operation} {failed : Bool} {before middle after : σ} {states : List σ}
      {value : α} :
      world.Answers before ⟨operation, response, failed⟩ middle →
      Visits world (next response) middle states after value →
      Visits world (.call operation next) before (middle :: states) after value

section

variable {before middle after : σ} {early late : List σ}

theorem visits_bind {program : Program Op Response α} {next : α → Program Op Response β} {value : α}
    {result : β} (first : world.Visits program before early middle value)
    (last : world.Visits (next value) middle late after result) :
    world.Visits (program >>= next) before (early ++ late) after result := by
  induction first with
  | done value state => exact last
  | call answers _ ih => exact .call answers (ih last)

theorem Visits.after_mem {program : Program Op Response α} {value : α}
    (visits : world.Visits program before early after value) : after = before ∨ after ∈ early := by
  induction visits with
  | done => exact .inl rfl
  | call _ _ ih => exact .inr (ih.elim (fun same => by simp [same]) (List.mem_cons_of_mem _))

variable {attempt : Attempt Op Response ε α} {next : α → Attempt Op Response ε β}

theorem visits_attempt_bind {value : α} {result : Except ε β}
    (first : world.Visits attempt.run before early middle (.ok value))
    (last : world.Visits (next value).run middle late after result) :
    world.Visits (attempt >>= next).run before (early ++ late) after result :=
  visits_bind first last

theorem visits_attempt_stop {stop : ε}
    (first : world.Visits attempt.run before early middle (.error stop)) :
    world.Visits (attempt >>= next).run before early middle (.error stop) := by
  have ends : world.Visits (ExceptT.bindCont next (Except.error stop)) middle [] middle
      (Except.error stop) := .done (Except.error stop) middle
  have whole := visits_bind first ends
  rwa [List.append_nil] at whole

theorem visits_run {handler : Program.Handler Op Response σ}
    (sound : ∀ state operation, world.works state operation (handler operation state).1
      (handler operation state).2) (program : Program Op Response α) (state : σ) :
    ∃ states, world.Visits program state states (Program.run handler program state).2
      (Program.run handler program state).1 := by
  induction program generalizing state with
  | done value => exact ⟨[], .done value state⟩
  | call operation next ih =>
      obtain ⟨states, later⟩ := ih (handler operation state).1 (handler operation state).2
      exact ⟨_, .call (.works (sound state operation)) later⟩

def Still (world : FaultyWorld Op Response σ) (state : σ) : Prop :=
  ∀ operation, ∃ response failed, world.Answers state ⟨operation, response, failed⟩ state

theorem exists_still_visits {state : σ} (still : world.Still state)
    (program : Program Op Response α) :
    ∃ states value, world.Visits program state states state value := by
  induction program with
  | done value => exact ⟨[], value, .done value state⟩
  | call operation next ih =>
      obtain ⟨response, failed, answers⟩ := still operation
      obtain ⟨states, value, later⟩ := ih response
      exact ⟨_, value, .call answers later⟩

def CanStop (world : FaultyWorld Op Response σ) (attempt : Attempt Op Response ε α) (state : σ) :
    Prop :=
  ∃ states stop, world.Visits attempt.run state states state (.error stop)

theorem CanStop.last {state : σ} (still : world.Still state)
    (ends : ∀ value, world.CanStop (next value) state) : world.CanStop (attempt >>= next) state := by
  obtain ⟨early, outcome, first⟩ := exists_still_visits still attempt.run
  cases outcome with
  | error stop => exact ⟨early, stop, visits_attempt_stop first⟩
  | ok value =>
      obtain ⟨late, stop, stopped⟩ := ends value
      exact ⟨_, stop, visits_attempt_bind first stopped⟩

theorem CanStop.first {state : σ} (stops : world.CanStop attempt state) :
    world.CanStop (attempt >>= next) state := by
  obtain ⟨states, stop, stopped⟩ := stops
  exact ⟨states, stop, visits_attempt_stop stopped⟩

end

/-- Every state that the program passes through is good, and it ends as the postcondition
says. -/
def Guards (world : FaultyWorld Op Response σ) (good : σ → Prop) (post : α → σ → Prop) :
    Program Op Response α → σ → Prop
  | .done value, state => post value state
  | .call operation next, state => ∀ response failed after,
      world.Answers state ⟨operation, response, failed⟩ after →
        good after ∧ Guards world good post (next response) after

def Ends (stopped : σ → Prop) (finished : α → σ → Prop) : Except ε α → σ → Prop
  | .error _, state => stopped state
  | .ok value, state => finished value state

section

variable {good stopped : σ → Prop} {state : σ} {program : Program Op Response α}

/-- A guarded program keeps the condition in each state that it visits. -/
theorem guards_sound {post : α → σ → Prop} {after : σ} {states : List σ} {value : α}
    (visits : world.Visits program state states after value)
    (guarded : world.Guards good post program state) :
    (∀ visited ∈ states, good visited) ∧ post value after := by
  induction visits with
  | done => exact ⟨by simp, guarded⟩
  | call answers _ ih =>
      obtain ⟨here, later⟩ := guarded _ _ _ answers
      obtain ⟨all, ends⟩ := ih later
      exact ⟨List.forall_mem_cons.mpr ⟨here, all⟩, ends⟩

theorem Guards.mono {narrow wide : α → σ → Prop} {better : σ → Prop}
    (guarded : world.Guards better narrow program state)
    (goods : ∀ state, better state → good state)
    (widens : ∀ value state, narrow value state → wide value state) :
    world.Guards good wide program state := by
  induction program generalizing state with
  | done value => exact widens _ _ guarded
  | call operation next ih =>
      intro response failed after answers
      obtain ⟨here, later⟩ := guarded response failed after answers
      exact ⟨goods _ here, ih response later⟩

theorem guards_bind {post : β → σ → Prop} {next : α → Program Op Response β}
    (first : world.Guards good (fun value state => world.Guards good post (next value) state)
      program state) :
    world.Guards good post (program >>= next) state := by
  induction program generalizing state with
  | done value => exact first
  | call operation rest ih =>
      intro response failed after answers
      obtain ⟨here, later⟩ := first response failed after answers
      exact ⟨here, ih response later⟩

theorem guards_request {operation : Op} {post : Response operation → σ → Prop}
    (each : ∀ response failed after, world.Answers state ⟨operation, response, failed⟩ after →
      good after ∧ post response after) :
    world.Guards good post (Program.request operation) state :=
  each

variable {attempt : Attempt Op Response ε α} {next : α → Attempt Op Response ε β}

theorem guards_attempt_bind {finished : β → σ → Prop}
    (first : world.Guards good (Ends stopped fun value state =>
      world.Guards good (Ends stopped finished) (next value).run state) attempt.run state) :
    world.Guards good (Ends stopped finished) (attempt >>= next).run state := by
  refine guards_bind (first.mono (fun _ here => here) fun outcome state ends => ?_)
  cases outcome with
  | error stop => exact ends
  | ok value => exact ends

theorem guards_lift {finished : α → σ → Prop}
    (guarded : world.Guards good finished program state) :
    world.Guards good (Ends stopped finished)
      (ExceptT.lift program : Attempt Op Response ε α).run state :=
  guards_bind guarded

theorem guards_forM {items : List α} {step : α → Attempt Op Response ε Unit}
    {holds : List α → σ → Prop} (start : holds [] state)
    (each : ∀ passed item rest state, items = passed ++ item :: rest → holds passed state →
      world.Guards good (Ends stopped fun _ => holds (passed ++ [item])) (step item).run state) :
    world.Guards good (Ends stopped fun _ => holds items) (items.forM step).run state := by
  suffices general : ∀ remaining passed state, items = passed ++ remaining → holds passed state →
      world.Guards good (Ends stopped fun _ => holds items) (remaining.forM step).run state from
    general items [] state rfl start
  intro remaining
  induction remaining with
  | nil =>
      intro passed state split held
      rw [List.append_nil] at split
      subst split
      exact held
  | cons item rest ih =>
      intro passed state split held
      refine guards_attempt_bind ((each passed item rest state split held).mono
        (fun _ here => here) fun outcome state ends => ?_)
      cases outcome with
      | error stop => exact ends
      | ok value => exact ih (passed ++ [item]) state (by simp [split]) ends

theorem guards_of_only {handler : Program.Handler Op Response σ} {allowed : Op → Prop}
    (reads : ∀ operation response failed after, allowed operation →
      world.Answers state ⟨operation, response, failed⟩ after →
        handler operation state = (response, state) ∧ after = state)
    (here : good state) {post : α → σ → Prop} (only : Program.Only allowed program)
    (ends : post (Program.run handler program state).1 state) :
    world.Guards good post program state := by
  induction program with
  | done value => exact ends
  | call operation next ih =>
      intro response failed after answers
      obtain ⟨answered, rfl⟩ := reads operation response failed after only.1 answers
      refine ⟨here, ih response (only.2 response) ?_⟩
      have ran : Program.run handler (.call operation next) after =
          Program.run handler (next (handler operation after).1) (handler operation after).2 := rfl
      rwa [ran, answered] at ends

end

end FaultyWorld

end EmuChef
