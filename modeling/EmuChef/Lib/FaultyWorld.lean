import EmuChef.Lib.Program

/-! Runs of a program in a world where any operation may fail and then changes nothing. -/

namespace EmuChef

structure FaultyWorld (Op : Type) (Response : Op → Type) (σ : Type) where
  works : σ → (operation : Op) → Response operation → σ → Prop
  fails : (operation : Op) → Response operation → Prop

structure FaultyCall (Op : Type) (Response : Op → Type) where
  operation : Op
  response : Response operation
  failed : Bool

namespace FaultyWorld

variable {Op : Type} {Response : Op → Type} {σ α β ε : Type}

inductive Answers (world : FaultyWorld Op Response σ) (before : σ) :
    FaultyCall Op Response → σ → Prop
  | works {operation : Op} {response : Response operation} {after : σ} :
      world.works before operation response after →
      Answers world before ⟨operation, response, false⟩ after
  | fails {operation : Op} {response : Response operation} :
      world.fails operation response → Answers world before ⟨operation, response, true⟩ before

/-- The runs of a program from a state, with the calls it makes and the state it ends in. -/
inductive Runs (world : FaultyWorld Op Response σ) :
    Program Op Response α → σ → List (FaultyCall Op Response) → σ → α → Prop
  | done (value : α) (state : σ) : Runs world (.done value) state [] state value
  | call {operation : Op} {next : Response operation → Program Op Response α}
      {response : Response operation} {failed : Bool} {before middle after : σ}
      {calls : List (FaultyCall Op Response)} {value : α} :
      world.Answers before ⟨operation, response, failed⟩ middle →
      Runs world (next response) middle calls after value →
      Runs world (.call operation next) before (⟨operation, response, failed⟩ :: calls) after value

variable {world : FaultyWorld Op Response σ} {before after : σ}
  {calls : List (FaultyCall Op Response)}

theorem runs_pure {value result : α} :
    world.Runs (pure value) before calls after result ↔
      calls = [] ∧ after = before ∧ result = value := by
  constructor
  · intro ran
    cases ran
    exact ⟨rfl, rfl, rfl⟩
  · rintro ⟨rfl, rfl, rfl⟩
    exact .done _ _

theorem runs_request {operation : Op} {result : Response operation} :
    world.Runs (Program.request operation) before calls after result ↔
      ∃ failed, calls = [⟨operation, result, failed⟩] ∧
        world.Answers before ⟨operation, result, failed⟩ after := by
  constructor
  · intro ran
    cases ran with
    | call answers rest =>
        cases rest
        exact ⟨_, rfl, answers⟩
  · rintro ⟨failed, rfl, answers⟩
    exact .call answers (.done _ _)

variable {program : Program Op Response α}

theorem runs_bind {next : α → Program Op Response β} {result : β} :
    world.Runs (program >>= next) before calls after result ↔
      ∃ value middle first last, world.Runs program before first middle value ∧
        world.Runs (next value) middle last after result ∧ calls = first ++ last := by
  change world.Runs (program.bind next) before calls after result ↔ _
  induction program generalizing before calls with
  | done value =>
      constructor
      · intro ran
        exact ⟨value, before, [], calls, .done value before, ran, rfl⟩
      · rintro ⟨_, _, _, last, done, ran, rfl⟩
        cases done
        exact ran
  | call operation rest ih =>
      constructor
      · intro ran
        cases ran with
        | call answers tail =>
            obtain ⟨value, middle, first, last, begins, ends, rfl⟩ := (ih _).mp tail
            exact ⟨value, middle, _, last, .call answers begins, ends, rfl⟩
      · rintro ⟨value, middle, _, last, begins, ends, rfl⟩
        cases begins with
        | call answers tail =>
            exact .call answers ((ih _).mpr ⟨value, middle, _, last, tail, ends, rfl⟩)

def Attempts (world : FaultyWorld Op Response σ) (attempt : Program.Attempt Op Response ε α)
    (before : σ) (calls : List (FaultyCall Op Response)) (after : σ) (result : Except ε α) : Prop :=
  world.Runs attempt.run before calls after result

theorem attempts_pure {value : α} {result : Except ε α} :
    world.Attempts (pure value) before calls after result ↔
      calls = [] ∧ after = before ∧ result = .ok value :=
  runs_pure

theorem attempts_throw {stop : ε} {result : Except ε α} :
    world.Attempts (throw stop) before calls after result ↔
      calls = [] ∧ after = before ∧ result = .error stop :=
  runs_pure

theorem attempts_check {answer result : Except ε α} :
    world.Attempts (Program.check answer) before calls after result ↔
      calls = [] ∧ after = before ∧ result = answer :=
  runs_pure

theorem attempts_bind {attempt : Program.Attempt Op Response ε α}
    {next : α → Program.Attempt Op Response ε β} {result : Except ε β} :
    world.Attempts (attempt >>= next) before calls after result ↔
      (∃ stop, world.Attempts attempt before calls after (.error stop) ∧ result = .error stop) ∨
      ∃ value middle first last, world.Attempts attempt before first middle (.ok value) ∧
        world.Attempts (next value) middle last after result ∧ calls = first ++ last := by
  change world.Runs (attempt.run >>= ExceptT.bindCont next) before calls after result ↔ _
  rw [runs_bind]
  constructor
  · rintro ⟨outcome, middle, first, last, begins, ends, rfl⟩
    cases outcome with
    | error stop =>
        obtain ⟨rfl, rfl, rfl⟩ := runs_pure.mp ends
        exact .inl ⟨stop, by simpa [Attempts] using begins, rfl⟩
    | ok value => exact .inr ⟨value, middle, first, last, begins, ends, rfl⟩
  · rintro (⟨stop, ran, rfl⟩ | ⟨value, middle, first, last, begins, ends, rfl⟩)
    · exact ⟨.error stop, after, calls, [], ran, runs_pure.mpr ⟨rfl, rfl, rfl⟩, by simp⟩
    · exact ⟨.ok value, middle, first, last, begins, ends, rfl⟩

theorem attempts_bind_finished {attempt : Program.Attempt Op Response ε α}
    {next : α → Program.Attempt Op Response ε β} {result : β} :
    world.Attempts (attempt >>= next) before calls after (.ok result) ↔
      ∃ value middle first last, world.Attempts attempt before first middle (.ok value) ∧
        world.Attempts (next value) middle last after (.ok result) ∧ calls = first ++ last := by
  rw [attempts_bind]
  constructor
  · rintro (⟨_, _, impossible⟩ | finished)
    · exact nomatch impossible
    · exact finished
  · exact .inr

theorem attempts_lift {result : Except ε α} :
    world.Attempts (ExceptT.lift program) before calls after result ↔
      ∃ value, world.Runs program before calls after value ∧ result = .ok value := by
  change world.Runs (program >>= fun value => pure (Except.ok value)) before calls after result ↔ _
  rw [runs_bind]
  constructor
  · rintro ⟨value, middle, first, last, begins, ends, rfl⟩
    obtain ⟨rfl, rfl, rfl⟩ := runs_pure.mp ends
    exact ⟨value, by simpa using begins, rfl⟩
  · rintro ⟨value, ran, rfl⟩
    exact ⟨value, after, calls, [], ran, runs_pure.mpr ⟨rfl, rfl, rfl⟩, by simp⟩

theorem keeps_of_only {allowed : Op → Prop} {seen : σ → β}
    (keeps : ∀ before operation response after, allowed operation →
      world.works before operation response after → seen after = seen before)
    (only : Program.Only allowed program) {value : α}
    (ran : world.Runs program before calls after value) : seen after = seen before := by
  induction ran with
  | done => rfl
  | call answers _ ih =>
      rw [ih (only.2 _)]
      cases answers with
      | works worked => exact keeps _ _ _ _ only.1 worked
      | fails => rfl

theorem allowed_of_only {allowed : Op → Prop} (only : Program.Only allowed program) {value : α}
    (ran : world.Runs program before calls after value) :
    ∀ call ∈ calls, allowed call.operation := by
  induction ran with
  | done => simp
  | call answers _ ih =>
      intro call member
      rcases List.mem_cons.mp member with rfl | later
      · exact only.1
      · exact ih (only.2 _) call later

theorem runs_run {handler : Program.Handler Op Response σ}
    (sound : ∀ state operation, world.works state operation (handler operation state).1
      (handler operation state).2) (program : Program Op Response α) (state : σ) :
    world.Runs program state
      ((Program.trace handler program state).map fun event =>
        ⟨event.operation, event.response, false⟩)
      (Program.run handler program state).2 (Program.run handler program state).1 := by
  induction program generalizing state with
  | done value => exact .done value state
  | call operation next ih => exact .call (.works (sound state operation)) (ih _ _)

section

def Ensures (world : FaultyWorld Op Response σ) (allowed : FaultyCall Op Response → Prop)
    (attempt : Program.Attempt Op Response ε α) (before : σ) (post : Except ε α → σ → Prop) :
    Prop :=
  ∀ calls after result, world.Attempts attempt before calls after result →
    (∀ call ∈ calls, allowed call) → post result after

variable {allowed : FaultyCall Op Response → Prop} {attempt : Program.Attempt Op Response ε α}
  {next : α → Program.Attempt Op Response ε β}

theorem Ensures.mono {post wider : Except ε α → σ → Prop}
    (ensured : world.Ensures allowed attempt before post)
    (widens : ∀ result after, post result after → wider result after) :
    world.Ensures allowed attempt before wider :=
  fun _ _ _ ran admitted => widens _ _ (ensured _ _ _ ran admitted)

variable {post : Except ε α → σ → Prop}

theorem ensures_pure {value : α} (holds : post (.ok value) before) :
    world.Ensures allowed (pure value) before post := by
  intro calls after result ran _
  obtain ⟨_, rfl, rfl⟩ := attempts_pure.mp ran
  exact holds

theorem ensures_throw {stop : ε}
    (holds : post (.error stop) before) : world.Ensures allowed (throw stop) before post := by
  intro calls after result ran _
  obtain ⟨_, rfl, rfl⟩ := attempts_throw.mp ran
  exact holds

theorem ensures_check {found : Except ε α}
    (holds : post found before) : world.Ensures allowed (Program.check found) before post := by
  intro calls after result ran _
  obtain ⟨_, rfl, rfl⟩ := attempts_check.mp ran
  exact holds

/-- The sequencing rule: a failure ends the attempt, a value goes on to the next part. -/
theorem ensures_bind {post : Except ε β → σ → Prop}
    (first : world.Ensures allowed attempt before fun result middle =>
      match result with
      | .error stop => post (.error stop) middle
      | .ok value => world.Ensures allowed (next value) middle post) :
    world.Ensures allowed (attempt >>= next) before post := by
  intro calls after result ran admitted
  rcases attempts_bind.mp ran with ⟨stop, stopped, rfl⟩ | ⟨_, _, _, _, begins, ends, rfl⟩
  · exact first _ _ _ stopped admitted
  · obtain ⟨early, late⟩ := List.forall_mem_append.mp admitted
    exact first _ _ _ begins early _ _ _ ends late

theorem ensures_request {operation : Op} {next : Response operation → Program.Attempt Op Response ε β}
    {post : Except ε β → σ → Prop}
    (each : ∀ response failed middle, world.Answers before ⟨operation, response, failed⟩ middle →
      allowed ⟨operation, response, failed⟩ → world.Ensures allowed (next response) middle post) :
    world.Ensures allowed (ExceptT.lift (Program.request operation) >>= next) before post := by
  refine ensures_bind fun calls middle result ran admitted => ?_
  obtain ⟨response, asked, rfl⟩ := attempts_lift.mp ran
  obtain ⟨failed, rfl, answers⟩ := runs_request.mp asked
  exact each response failed middle answers (admitted _ (List.mem_singleton_self _))

end

end FaultyWorld

end EmuChef
