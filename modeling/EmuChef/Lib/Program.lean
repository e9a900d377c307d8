import Mathlib.Data.List.Basic

/-! Programs that issue typed operations, the traces they can leave, and their runs against one
handler. -/

namespace EmuChef

/-- A program either is finished or issues one operation and waits for its response. -/
inductive Program (Op : Type) (Response : Op → Type) (α : Type) where
  | done (value : α)
  | call (operation : Op) (next : Response operation → Program Op Response α)

structure Event (Op : Type) (Response : Op → Type) where
  operation : Op
  response : Response operation

namespace Program

variable {Op : Type} {Response : Op → Type} {α β γ ε σ : Type}

protected def bind (program : Program Op Response α) (next : α → Program Op Response β) :
    Program Op Response β :=
  match program with
  | done value => next value
  | call operation rest => call operation fun response => (rest response).bind next

instance : Monad (Program Op Response) where
  pure := done
  bind := Program.bind

def request (operation : Op) : Program Op Response (Response operation) :=
  call operation done

inductive Runs : Program Op Response α → List (Event Op Response) → α → Prop
  | done (value : α) : Runs (done value) [] value
  | call {operation next events value} (response : Response operation) :
      Runs (next response) events value →
      Runs (call operation next) (⟨operation, response⟩ :: events) value

section

variable {events : List (Event Op Response)}

@[simp] theorem runs_pure {value result : α} :
    Runs (pure value : Program Op Response α) events result ↔ events = [] ∧ result = value := by
  constructor
  · intro ran
    cases ran
    exact ⟨rfl, rfl⟩
  · rintro ⟨rfl, rfl⟩
    exact .done _

@[simp] theorem runs_request {operation : Op} {result : Response operation} :
    Runs (request operation) events result ↔ events = [⟨operation, result⟩] := by
  constructor
  · intro ran
    cases ran with
    | call response rest =>
        cases rest
        rfl
  · rintro rfl
    exact .call result (.done _)

variable {program : Program Op Response α}

@[simp] theorem runs_bind {next : α → Program Op Response β} {result : β} :
    Runs (program >>= next) events result ↔
      ∃ value before after, Runs program before value ∧ Runs (next value) after result ∧
        events = before ++ after := by
  change Runs (program.bind next) events result ↔ _
  induction program generalizing events with
  | done value =>
      constructor
      · intro ran
        exact ⟨value, [], events, .done value, ran, rfl⟩
      · rintro ⟨found, before, after, first, last, rfl⟩
        cases first
        exact last
  | call operation rest ih =>
      constructor
      · intro ran
        cases ran with
        | call response tail =>
            obtain ⟨value, before, after, first, last, rfl⟩ := (ih response).mp tail
            exact ⟨value, _, after, .call response first, last, rfl⟩
      · rintro ⟨value, before, after, first, last, rfl⟩
        cases first with
        | call response head =>
            exact .call response ((ih response).mpr ⟨value, _, after, head, last, rfl⟩)

theorem runs_request_bind {operation : Op} {next : Response operation → Program Op Response β}
    {result : β} :
    Runs (request operation >>= next) events result ↔
      ∃ response after, Runs (next response) after result ∧
        events = ⟨operation, response⟩ :: after := by
  rw [runs_bind]
  constructor
  · rintro ⟨response, before, after, asked, rest, rfl⟩
    obtain rfl := runs_request.mp asked
    exact ⟨response, after, rest, rfl⟩
  · rintro ⟨response, after, rest, rfl⟩
    exact ⟨response, [⟨operation, response⟩], after, runs_request.mpr rfl, rest, rfl⟩

abbrev Attempt (Op : Type) (Response : Op → Type) (ε α : Type) :=
  ExceptT ε (Program Op Response) α

def Attempts (attempt : Attempt Op Response ε α) (events : List (Event Op Response))
    (result : Except ε α) : Prop :=
  Runs attempt.run events result

@[simp] theorem attempts_pure {value : α} {result : Except ε α} :
    Attempts (pure value : Attempt Op Response ε α) events result ↔
      events = [] ∧ result = .ok value :=
  runs_pure

@[simp] theorem attempts_throw {stop : ε} {result : Except ε α} :
    Attempts (throw stop : Attempt Op Response ε α) events result ↔
      events = [] ∧ result = .error stop :=
  runs_pure

@[simp] theorem attempts_lift {result : Except ε α} :
    Attempts (ExceptT.lift program : Attempt Op Response ε α) events result ↔
      ∃ value, Runs program events value ∧ result = .ok value := by
  change Runs (program >>= fun value => pure (Except.ok value)) events result ↔ _
  simp only [runs_bind, runs_pure]
  constructor
  · rintro ⟨value, before, after, ran, ⟨rfl, rfl⟩, rfl⟩
    exact ⟨value, by simpa using ran, rfl⟩
  · rintro ⟨value, ran, rfl⟩
    exact ⟨value, events, [], ran, ⟨rfl, rfl⟩, by simp⟩

def check (answer : Except ε α) : Attempt Op Response ε α :=
  ExceptT.mk (pure answer)

@[simp] theorem attempts_check {answer result : Except ε α} :
    Attempts (check answer) events result ↔ events = [] ∧ result = answer :=
  runs_pure

variable {next : α → Attempt Op Response ε β} {attempt : Attempt Op Response ε α}
  {result : Except ε β}

theorem attempts_bind : Attempts (attempt >>= next) events result ↔
      (∃ stop, Attempts attempt events (.error stop) ∧ result = .error stop) ∨
      ∃ value before after, Attempts attempt before (.ok value) ∧
        Attempts (next value) after result ∧ events = before ++ after := by
  change Runs (attempt.run >>= ExceptT.bindCont next) events result ↔ _
  rw [runs_bind]
  constructor
  · rintro ⟨outcome, before, after, first, last, rfl⟩
    cases outcome with
    | error stop =>
        obtain ⟨rfl, rfl⟩ := runs_pure.mp last
        exact .inl ⟨stop, by simpa [Attempts] using first, rfl⟩
    | ok value => exact .inr ⟨value, before, after, first, last, rfl⟩
  · rintro (⟨stop, ran, rfl⟩ | ⟨value, before, after, first, last, rfl⟩)
    · exact ⟨.error stop, events, [], ran, runs_pure.mpr ⟨rfl, rfl⟩, by simp⟩
    · exact ⟨.ok value, before, after, first, last, rfl⟩

theorem attempts_bind_error {stop : ε} (stopped : Attempts attempt events (.error stop)) :
    Attempts (attempt >>= next) events (.error stop) :=
  attempts_bind.mpr (.inl ⟨stop, stopped, rfl⟩)

theorem attempts_bind_ok {before after : List (Event Op Response)} {value : α}
    (first : Attempts attempt before (.ok value))
    (last : Attempts (next value) after result) :
    Attempts (attempt >>= next) (before ++ after) result :=
  attempts_bind.mpr (.inr ⟨value, before, after, first, last, rfl⟩)

theorem attempts_bind_finished {result : β} : Attempts (attempt >>= next) events (.ok result) ↔
      ∃ value before after, Attempts attempt before (.ok value) ∧
        Attempts (next value) after (.ok result) ∧ events = before ++ after := by
  rw [attempts_bind]
  constructor
  · rintro (⟨_, _, impossible⟩ | finished)
    · exact nomatch impossible
    · exact finished
  · exact .inr

/-- A program that stops where its first part refuses, and else settles what its body left. -/
theorem runs_guarded {σ β : Type} {entry : Attempt Op Response ε Unit} {body : Program Op Response σ}
    {finish : σ → α} {settle : Except ε α → β} {result : β}
    (ran : Runs (do
      let ended ← ExceptT.run do
        entry
        let state ← ExceptT.lift body
        return finish state
      return settle ended) events result) :
    (∃ stop, Attempts entry events (.error stop) ∧ result = settle (.error stop)) ∨
      ∃ state before after, Attempts entry before (.ok ()) ∧ Runs body after state ∧
        events = before ++ after ∧ result = settle (.ok (finish state)) := by
  obtain ⟨ended, before, after, guarded, last, rfl⟩ := runs_bind.mp ran
  obtain ⟨rfl, rfl⟩ := runs_pure.mp last
  rw [List.append_nil]
  rcases attempts_bind.mp guarded with ⟨stop, stopped, rfl⟩ | ⟨_, first, rest, passed, later, rfl⟩
  · exact .inl ⟨stop, stopped, rfl⟩
  · rcases attempts_bind.mp later with ⟨_, stopped, _⟩ | ⟨state, looped, tail, lifted, finished, rfl⟩
    · obtain ⟨_, _, impossible⟩ := attempts_lift.mp stopped
      cases impossible
    · obtain ⟨_, steps, same⟩ := attempts_lift.mp lifted
      cases same
      obtain ⟨rfl, rfl⟩ := attempts_pure.mp finished
      exact .inr ⟨state, first, looped, passed, steps, by rw [List.append_nil], rfl⟩

theorem attempts_check_bind {answer : Except ε α} : Attempts (check answer >>= next) events result ↔
      (∃ stop, answer = .error stop ∧ events = [] ∧ result = .error stop) ∨
      ∃ value, answer = .ok value ∧ Attempts (next value) events result := by
  cases answer with
  | error stop =>
      change Runs (pure (.error stop)) events result ↔ _
      simp
  | ok value =>
      change Attempts (next value) events result ↔ _
      simp

theorem attempts_request_bind {operation : Op}
    {next : Response operation → Attempt Op Response ε β} :
    Attempts (ExceptT.lift (request operation) >>= next) events result ↔
      ∃ response after, Attempts (next response) after result ∧
        events = ⟨operation, response⟩ :: after := by
  rw [attempts_bind]
  constructor
  · rintro (⟨_, stopped, _⟩ | ⟨response, before, after, asked, rest, rfl⟩)
    · obtain ⟨_, _, impossible⟩ := attempts_lift.mp stopped
      exact nomatch impossible
    · obtain ⟨_, requested, same⟩ := attempts_lift.mp asked
      cases same
      obtain rfl := runs_request.mp requested
      exact ⟨response, after, rest, rfl⟩
  · rintro ⟨response, after, rest, rfl⟩
    exact .inr ⟨response, [⟨operation, response⟩], after,
      attempts_lift.mpr ⟨response, runs_request.mpr rfl, rfl⟩, rest, rfl⟩

theorem attempts_foldlM {step : β → α → Attempt Op Response ε β} {init : β} {items : List α}
    (invariant : List α → β → List (Event Op Response) → Prop)
    (start : invariant [] init [])
    (advance : ∀ passed item rest state seen, items = passed ++ item :: rest →
      invariant passed state seen → ∀ more next, Attempts (step state item) more (.ok next) →
        invariant (passed ++ [item]) next (seen ++ more))
    (ran : Attempts (items.foldlM step init) events result) :
    (∃ state, result = .ok state ∧ invariant items state events) ∨
    ∃ passed item rest state seen more stop, items = passed ++ item :: rest ∧
      invariant passed state seen ∧ Attempts (step state item) more (.error stop) ∧
      result = .error stop ∧ events = seen ++ more := by
  suffices general : ∀ passed remaining state seen events, items = passed ++ remaining →
      invariant passed state seen → Attempts (remaining.foldlM step state) events result →
      (∃ state, result = .ok state ∧ invariant items state (seen ++ events)) ∨
      ∃ passed item rest state seen' more stop, items = passed ++ item :: rest ∧
        invariant passed state seen' ∧ Attempts (step state item) more (.error stop) ∧
        result = .error stop ∧ seen ++ events = seen' ++ more by
    simpa using general [] items init [] events rfl start ran
  intro passed remaining
  induction remaining generalizing passed with
  | nil =>
      intro state seen events split holds ran
      obtain ⟨rfl, rfl⟩ := attempts_pure.mp ran
      have whole : passed = items := by simpa using split.symm
      exact .inl ⟨state, rfl, by simpa [whole] using holds⟩
  | cons item rest ih =>
      intro state seen events split holds ran
      rw [List.foldlM_cons] at ran
      rcases attempts_bind.mp ran with ⟨stop, stopped, rfl⟩ | ⟨next, more, after, first, last, rfl⟩
      · exact .inr ⟨passed, item, rest, state, seen, events, stop, split, holds, stopped, rfl, rfl⟩
      · have held := advance passed item rest state seen split holds more next first
        simpa using ih (passed ++ [item]) next (seen ++ more) after (by simp [split]) held last

theorem map_id_program (program : Program Op Response α) : id <$> program = program := by
  change program.bind (fun value => done value) = program
  induction program with
  | done value => rfl
  | call operation next ih => exact congrArg (call operation) (funext ih)

theorem bind_assoc_program (program : Program Op Response α) (first : α → Program Op Response β)
    (second : β → Program Op Response γ) :
    program >>= first >>= second = program >>= fun value => first value >>= second := by
  change (program.bind first).bind second = program.bind fun value => (first value).bind second
  induction program with
  | done value => rfl
  | call operation next ih => exact congrArg (call operation) (funext ih)

instance : LawfulMonad (Program Op Response) :=
  LawfulMonad.mk' (Program Op Response) map_id_program (fun _ _ => rfl) bind_assoc_program

def Only (allowed : Op → Prop) : Program Op Response α → Prop
  | done _ => True
  | call operation next => allowed operation ∧ ∀ response, Only allowed (next response)

end

section

variable {allowed : Op → Prop}

@[simp] theorem only_pure {value : α} :
    Only allowed (pure value : Program Op Response α) :=
  trivial

@[simp] theorem only_request {operation : Op} :
    Only allowed (request operation : Program Op Response _) ↔ allowed operation :=
  and_iff_left fun _ => trivial

@[simp] theorem only_check {answer : Except ε α} :
    Only allowed (check answer : Attempt Op Response ε α).run :=
  trivial

variable {program : Program Op Response α}

theorem only_bind {next : α → Program Op Response β}
    (first : Only allowed program) (last : ∀ value, Only allowed (next value)) :
    Only allowed (program >>= next) := by
  change Only allowed (program.bind next)
  induction program with
  | done value => exact last value
  | call operation rest ih => exact ⟨first.1, fun response => ih response (first.2 response)⟩

theorem only_attempt_bind {attempt : Attempt Op Response ε α}
    {next : α → Attempt Op Response ε β} (first : Only allowed attempt.run)
    (last : ∀ value, Only allowed (next value).run) : Only allowed (attempt >>= next).run := by
  refine only_bind first fun outcome => ?_
  cases outcome with
  | ok value => exact last value
  | error stop => trivial

theorem only_attempt_lift (issued : Only allowed program) :
    Only allowed (ExceptT.lift program : Attempt Op Response ε α).run :=
  only_bind issued fun _ => trivial

theorem forM_eq_foldlM (items : List α) (step : α → Attempt Op Response ε Unit) :
    items.forM step = items.foldlM (fun _ => step) () := by
  induction items with
  | nil => rfl
  | cons item rest ih =>
      rw [List.foldlM_cons]
      exact congrArg (step item >>= ·) (funext fun _ => ih)

theorem only_attempt_foldlM {items : List α} {step : β → α → Attempt Op Response ε β} {state : β}
    (each : ∀ item ∈ items, ∀ state, Only allowed (step state item).run) :
    Only allowed (items.foldlM step state).run := by
  induction items generalizing state with
  | nil => exact only_pure
  | cons item rest ih =>
      rw [List.foldlM_cons]
      exact only_attempt_bind (each item (by simp) state)
        fun _ => ih fun other member => each other (by simp [member])

theorem only_attempt_forM {items : List α} {step : α → Attempt Op Response ε Unit}
    (each : ∀ item ∈ items, Only allowed (step item).run) :
    Only allowed (items.forM step).run := by
  rw [forM_eq_foldlM]
  exact only_attempt_foldlM fun item member _ => each item member

theorem Only.mono {wider : Op → Prop}
    (only : Only allowed program) (covers : ∀ operation, allowed operation → wider operation) :
    Only wider program := by
  induction program with
  | done value => trivial
  | call operation next ih => exact ⟨covers _ only.1, fun response => ih response (only.2 response)⟩

theorem Only.events {events : List (Event Op Response)}
    {result : α} (only : Only allowed program) (ran : Runs program events result) :
    ∀ event ∈ events, allowed event.operation := by
  induction ran with
  | done value => simp
  | call response rest ih =>
      intro event member
      rcases List.mem_cons.mp member with rfl | later
      · exact only.1
      · exact ih (only.2 response) event later

end

variable {events : List (Event Op Response)}

def Trusting (law : (operation : Op) → Response operation → Prop) (good : α → Prop) :
    Program Op Response α → Prop
  | done value => good value
  | call operation next => ∀ response, law operation response → Trusting law good (next response)

def Outcome (blame : ε → Prop) (good : α → Prop) : Except ε α → Prop
  | .error stop => blame stop
  | .ok value => good value

def Blames (law : (operation : Op) → Response operation → Prop) (blame : ε → Prop) (good : α → Prop)
    (attempt : Attempt Op Response ε α) : Prop :=
  Trusting law (Outcome blame good) attempt.run

section

variable {law : (operation : Op) → Response operation → Prop} {good : α → Prop} {better : β → Prop}
  {blame : ε → Prop} {program : Program Op Response α}

theorem trusting_bind {next : α → Program Op Response β}
    (first : Trusting law good program) (last : ∀ value, good value → Trusting law better (next value)) :
    Trusting law better (program >>= next) := by
  change Trusting law better (program.bind next)
  induction program with
  | done value => exact last value first
  | call operation rest ih => exact fun response kept => ih response (first response kept)

theorem trusting_request {operation : Op} {next : Response operation → Program Op Response β}
    (each : ∀ response, law operation response → Trusting law better (next response)) :
    Trusting law better (request operation >>= next) :=
  each

theorem Trusting.mono {weaker : α → Prop}
    (trusting : Trusting law good program) (weakens : ∀ value, good value → weaker value) :
    Trusting law weaker program := by
  induction program with
  | done value => exact weakens value trusting
  | call operation next ih => exact fun response kept => ih response (trusting response kept)

theorem Trusting.runs {events : List (Event Op Response)}
    {result : α} (trusting : Trusting law good program) (ran : Runs program events result)
    (kept : ∀ event ∈ events, law event.operation event.response) : good result := by
  induction ran with
  | done value => exact trusting
  | call response rest ih =>
      exact ih (trusting response (kept ⟨_, response⟩ List.mem_cons_self))
        fun event later => kept event (List.mem_cons_of_mem _ later)

theorem trusting_of_runs (ends : ∀ events result, Runs program events result →
      (∀ event ∈ events, law event.operation event.response) → good result) :
    Trusting law good program := by
  induction program with
  | done value => exact ends [] value (.done value) fun _ impossible => nomatch impossible
  | call operation next ih =>
      intro response kept
      refine ih response fun events result ran all => ?_
      refine ends (⟨operation, response⟩ :: events) result (.call response ran) fun event member => ?_
      rcases List.mem_cons.mp member with rfl | later
      · exact kept
      · exact all event later

theorem blames_pure {value : α} (holds : good value) :
    Blames law blame good (pure value : Attempt Op Response ε α) :=
  holds

theorem blames_throw {stop : ε} (holds : blame stop) :
    Blames law blame good (throw stop : Attempt Op Response ε α) :=
  holds

theorem blames_check {answer : Except ε α} (holds : Outcome blame good answer) :
    Blames law blame good (check answer : Attempt Op Response ε α) :=
  holds

theorem blames_bind {attempt : Attempt Op Response ε α} {next : α → Attempt Op Response ε β}
    (first : Blames law blame good attempt)
    (last : ∀ value, good value → Blames law blame better (next value)) :
    Blames law blame better (attempt >>= next) := by
  refine trusting_bind first fun outcome known => ?_
  cases outcome with
  | error stop => exact known
  | ok value => exact last value known

theorem blames_request {operation : Op} {next : Response operation → Attempt Op Response ε β}
    (each : ∀ response, law operation response → Blames law blame better (next response)) :
    Blames law blame better (ExceptT.lift (request operation) >>= next) :=
  each

theorem blames_lift (trusting : Trusting law good program) :
    Blames law blame good (ExceptT.lift program : Attempt Op Response ε α) :=
  trusting_bind trusting fun _ holds => holds

theorem blames_foldlM {items : List α} {step : β → α → Attempt Op Response ε β} {state : β}
    (each : ∀ item ∈ items, ∀ state, better state → Blames law blame better (step state item))
    (start : better state) : Blames law blame better (items.foldlM step state) := by
  induction items generalizing state with
  | nil => exact blames_pure start
  | cons item rest ih =>
      rw [List.foldlM_cons]
      exact blames_bind (each item List.mem_cons_self state start)
        fun _ => ih fun other member => each other (List.mem_cons_of_mem _ member)

end

def Reaches (attempt : Attempt Op Response ε α) (value : α) : Prop :=
  ∃ events, Attempts attempt events (.ok value)

theorem reaches_pure (value : α) : Reaches (pure value : Attempt Op Response ε α) value :=
  ⟨[], attempts_pure.mpr ⟨rfl, rfl⟩⟩

theorem reaches_check {answer : Except ε α} {value : α} (passes : answer = .ok value) :
    Reaches (check answer : Attempt Op Response ε α) value :=
  ⟨[], attempts_check.mpr ⟨rfl, passes.symm⟩⟩

theorem reaches_bind {attempt : Attempt Op Response ε α}
    {value : α} {result : β} (first : Reaches attempt value) (last : Reaches (next value) result) :
    Reaches (attempt >>= next) result := by
  obtain ⟨before, ran⟩ := first
  obtain ⟨after, done⟩ := last
  exact ⟨before ++ after, attempts_bind_ok ran done⟩

theorem reaches_forM {items : List α} {step : α → Attempt Op Response ε Unit}
    (each : ∀ item ∈ items, Reaches (step item) ()) : Reaches (items.forM step) () := by
  induction items with
  | nil => exact reaches_pure ()
  | cons item rest ih =>
      exact reaches_bind (each item (by simp)) (ih fun other member => each other (by simp [member]))

abbrev Handler (Op : Type) (Response : Op → Type) (σ : Type) :=
  (operation : Op) → σ → Response operation × σ

def run (handler : Handler Op Response σ) : Program Op Response α → σ → α × σ
  | done value, state => (value, state)
  | call operation next, state =>
      let answered := handler operation state
      run handler (next answered.1) answered.2

def trace (handler : Handler Op Response σ) : Program Op Response α → σ → List (Event Op Response)
  | done _, _ => []
  | call operation next, state =>
      let answered := handler operation state
      ⟨operation, answered.1⟩ :: trace handler (next answered.1) answered.2

section

variable (handler : Handler Op Response σ)

include handler

theorem runs_trace (program : Program Op Response α) (state : σ) :
    Runs program (trace handler program state) (run handler program state).1 := by
  induction program generalizing state with
  | done value => exact .done value
  | call operation next ih => exact .call _ (ih _ _)

def fixed (answers : (operation : Op) → Response operation) : Handler Op Response Unit :=
  fun operation state => (answers operation, state)

omit handler in
theorem response_of_mem_trace {answers : (operation : Op) → Response operation}
    {event : Event Op Response}
    (member : event ∈ trace (fixed answers) program ()) :
    event.response = answers event.operation := by
  induction program with
  | done value => exact nomatch member
  | call operation next ih =>
      rcases List.mem_cons.mp member with rfl | later
      · rfl
      · exact ih _ later

omit handler in
theorem exists_runs_answers (answers : (operation : Op) → Response operation)
    (program : Program Op Response α) : ∃ events result, Runs program events result ∧
      ∀ event ∈ events, event.response = answers event.operation :=
  ⟨_, _, runs_trace (fixed answers) program (), fun _ => response_of_mem_trace⟩

@[simp] theorem run_pure (value : α) (state : σ) :
    run handler (pure value : Program Op Response α) state = (value, state) :=
  rfl

@[simp] theorem run_request (operation : Op) (state : σ) :
    run handler (request operation) state = handler operation state :=
  rfl

@[simp] theorem run_bind (program : Program Op Response α)
    (next : α → Program Op Response β) (state : σ) :
    run handler (program >>= next) state =
      run handler (next (run handler program state).1) (run handler program state).2 := by
  change run handler (program.bind next) state = _
  induction program generalizing state with
  | done value => rfl
  | call operation rest ih => exact ih _ _

theorem trace_bind (program : Program Op Response α)
    (next : α → Program Op Response β) (state : σ) :
    trace handler (program >>= next) state = trace handler program state ++
      trace handler (next (run handler program state).1) (run handler program state).2 := by
  change trace handler (program.bind next) state = _
  induction program generalizing state with
  | done value => rfl
  | call operation rest ih => exact congrArg (List.cons _) (ih _ _)

def attempt (handler : Handler Op Response σ) (program : Attempt Op Response ε α) (state : σ) :
    Except ε α × σ :=
  run handler program.run state

@[simp] theorem attempt_pure (value : α) (state : σ) :
    attempt handler (pure value : Attempt Op Response ε α) state = (.ok value, state) :=
  rfl

@[simp] theorem attempt_lift (program : Program Op Response α) (state : σ) :
    attempt handler (ExceptT.lift program : Attempt Op Response ε α) state =
      (.ok (run handler program state).1, (run handler program state).2) := by
  change run handler (program >>= fun value => pure (Except.ok value)) state = _
  rw [run_bind, run_pure]

end

variable {handler : Handler Op Response σ} {step : α → Attempt Op Response ε Unit} {items : List α}

theorem attempt_bind_ok {first : Attempt Op Response ε α} {before after : σ} {value : α}
    (ran : attempt handler first before = (.ok value, after)) :
    attempt handler (first >>= next) before = attempt handler (next value) after := by
  change run handler (first.run >>= ExceptT.bindCont next) before = _
  rw [run_bind, show run handler first.run before = _ from ran]
  rfl

theorem attempt_bind_finished {first : Attempt Op Response ε α} {before after : σ} {result : β} :
    attempt handler (first >>= next) before = (.ok result, after) ↔
      ∃ value middle, attempt handler first before = (.ok value, middle) ∧
        attempt handler (next value) middle = (.ok result, after) := by
  constructor
  · intro ran
    cases outcome : attempt handler first before with
    | mk found middle =>
        cases found with
        | ok value => exact ⟨value, middle, rfl, (attempt_bind_ok outcome).symm.trans ran⟩
        | error stop =>
            change run handler (first.run >>= ExceptT.bindCont next) before = _ at ran
            rw [run_bind, show run handler first.run before = _ from outcome] at ran
            cases congrArg Prod.fst ran
  · rintro ⟨value, middle, begins, ends⟩
    rw [attempt_bind_ok begins, ends]

theorem attempt_forM_finished {state after : σ}
    (still : ∀ item, (attempt handler (step item) state).2 = state)
    (ran : attempt handler (items.forM step) state = (.ok (), after)) :
    ∀ item ∈ items, attempt handler (step item) state = (.ok (), state) := by
  induction items with
  | nil => simp
  | cons item rest ih =>
      obtain ⟨_, middle, first, later⟩ := attempt_bind_finished.mp ran
      obtain rfl : middle = state := by
        rw [← still item, first]
      intro other member
      rcases List.mem_cons.mp member with rfl | inRest
      · exact first
      · exact ih later other inRest

theorem attempt_foldlM_ok {step : β → α → Attempt Op Response ε β}
    {init : β} {world : σ} {invariant : List α → β → σ → Prop}
    (start : invariant [] init world)
    (advance : ∀ passed item rest state before, items = passed ++ item :: rest →
      invariant passed state before → ∃ next after,
        attempt handler (step state item) before = (.ok next, after) ∧
          invariant (passed ++ [item]) next after) :
    ∃ last final, attempt handler (items.foldlM step init) world = (.ok last, final) ∧
      invariant items last final := by
  suffices general : ∀ remaining passed state before, items = passed ++ remaining →
      invariant passed state before → ∃ last final,
        attempt handler (remaining.foldlM step state) before = (.ok last, final) ∧
          invariant items last final from
    general items [] init world rfl start
  intro remaining
  induction remaining with
  | nil =>
      intro passed state before split holds
      exact ⟨state, before, by simp, by simpa [split] using holds⟩
  | cons item rest ih =>
      intro passed state before split holds
      obtain ⟨next, after, stepped, held⟩ := advance passed item rest state before split holds
      obtain ⟨last, final, ran, done⟩ :=
        ih (passed ++ [item]) next after (by simp [split]) held
      refine ⟨last, final, ?_, done⟩
      rw [List.foldlM_cons, attempt_bind_ok stepped, ran]

theorem attempt_forM_ok {world : σ} {invariant : List α → σ → Prop} (start : invariant [] world)
    (advance : ∀ passed item rest before, items = passed ++ item :: rest → invariant passed before →
      ∃ after, attempt handler (step item) before = (.ok (), after) ∧
        invariant (passed ++ [item]) after) :
    ∃ final, attempt handler (items.forM step) world = (.ok (), final) ∧ invariant items final := by
  rw [forM_eq_foldlM]
  obtain ⟨_, final, ran, done⟩ := attempt_foldlM_ok start
    fun passed item rest (_ : Unit) before split holds => by
      obtain ⟨after, stepped, held⟩ := advance passed item rest before split holds
      exact ⟨(), after, stepped, held⟩
  exact ⟨final, ran, done⟩

end Program

end EmuChef
