import EmuChef.Lib.OrderedMap

/-! A map and the queue of its keys, oldest first; names that are handed out once; and what a
long run can be traced back to. -/

namespace EmuChef.Retention

section

variable {κ α : Type} [DecidableEq κ] {map : OrderedMap κ α} {order : List κ}

structure InStep (map : OrderedMap κ α) (order : List κ) : Prop where
  distinct : order.Nodup
  same : ∀ key, key ∈ order ↔ key ∈ map.keys

omit [DecidableEq κ] in
theorem inStep_empty : InStep (OrderedMap.empty : OrderedMap κ α) [] :=
  ⟨List.nodup_nil, fun _ => Iff.rfl⟩

omit [DecidableEq κ] in
theorem InStep.perm (step : InStep map order) : order.Perm map.keys :=
  (List.perm_ext_iff_of_nodup step.distinct map.keys_nodup).mpr step.same

theorem mem_keys_erase {key other : κ} : other ∈ (map.erase key).keys ↔ other ∈ map.keys ∧ other ≠ key := by
  rw [← OrderedMap.get?_isSome, ← OrderedMap.get?_isSome, OrderedMap.get?_erase]
  by_cases same : other = key
  · simp [same]
  · simp [same]

theorem InStep.remove (step : InStep map order) (key : κ) :
    InStep (map.erase key) (order.filter fun candidate => candidate ≠ key) := by
  refine ⟨step.distinct.filter _, fun other => ?_⟩
  rw [List.mem_filter, step.same, mem_keys_erase]
  simp

theorem InStep.evict {oldest : κ} {rest : List κ} (step : InStep map (oldest :: rest)) :
    InStep (map.erase oldest) rest := by
  obtain ⟨fresh, distinct⟩ := List.nodup_cons.mp step.distinct
  refine ⟨distinct, fun other => ?_⟩
  rw [mem_keys_erase, ← step.same, List.mem_cons]
  constructor
  · intro member
    exact ⟨.inr member, fun same => fresh (same ▸ member)⟩
  · rintro ⟨rfl | member, different⟩
    · exact absurd rfl different
    · exact member

theorem InStep.push (step : InStep map order) {key : κ} (absent : key ∉ map.keys) (value : α) :
    InStep (map.insert key value) (order ++ [key]) := by
  have unlisted : key ∉ order := fun member => absent ((step.same key).mp member)
  refine ⟨?_, fun other => ?_⟩
  · rw [List.nodup_append]
    refine ⟨step.distinct, List.nodup_singleton key, ?_⟩
    intro listed member added here same
    have added_key := List.mem_singleton.mp here
    exact unlisted (added_key ▸ same ▸ member)
  · rw [List.mem_append, step.same, List.mem_singleton, OrderedMap.keys_insert, or_comm]

theorem InStep.overwrite (step : InStep map order) {key : κ} (present : key ∈ map.keys) (value : α) :
    InStep (map.insert key value) order := by
  refine ⟨step.distinct, fun other => ?_⟩
  rw [step.same, OrderedMap.keys_insert]
  constructor
  · exact .inr
  · rintro (rfl | member)
    · exact present
    · exact member

end

section

variable {ι : Type} {name : Nat → ι} {drawn more : Nat} {held : ι}

def Issued (name : Nat → ι) (drawn : Nat) (held : ι) : Prop := ∃ number < drawn, name number = held

theorem Issued.mono (issued : Issued name drawn held) (later : drawn ≤ more) :
    Issued name more held := by
  obtain ⟨number, early, same⟩ := issued
  exact ⟨number, by omega, same⟩

theorem issued_next : Issued name (drawn + 1) (name drawn) := ⟨drawn, by omega, rfl⟩

theorem not_issued_next (distinct : Function.Injective name) : ¬Issued name drawn (name drawn) := by
  rintro ⟨number, early, same⟩
  have := distinct same
  omega

end

section

variable {σ γ : Type} {step : σ → γ → σ} {kept : σ → Prop}

theorem foldl_kept (preserved : ∀ state call, kept state → kept (step state call)) {state : σ}
    (holds : kept state) (calls : List γ) : kept (calls.foldl step state) := by
  induction calls generalizing state with
  | nil => exact holds
  | cons call calls ih => exact ih (preserved state call holds)

theorem foldl_related {related : σ → σ → Prop} (refl : ∀ state, related state state)
    (trans : ∀ first second third, related first second → related second third → related first third)
    (preserved : ∀ state call, kept state → kept (step state call))
    (moves : ∀ state call, kept state → related state (step state call)) {state : σ}
    (holds : kept state) (calls : List γ) : related state (calls.foldl step state) := by
  induction calls generalizing state with
  | nil => exact refl state
  | cons call calls ih =>
      exact trans _ _ _ (moves state call holds) (ih (preserved state call holds))

/-- What holds at the end held at the start, or one of the calls brought it. -/
theorem foldl_origin {held : σ → Prop} {brings : σ → γ → Prop}
    (preserved : ∀ state call, kept state → kept (step state call))
    (origin : ∀ state call, kept state → held (step state call) → held state ∨ brings state call)
    {state : σ} (holds : kept state) {calls : List γ} (final : held (calls.foldl step state)) :
    held state ∨ ∃ before call after, calls = before ++ call :: after ∧
      brings (before.foldl step state) call := by
  induction calls generalizing state with
  | nil => exact .inl final
  | cons call calls ih =>
      rcases ih (preserved state call holds) final with here | ⟨before, later, after, rfl, brought⟩
      · rcases origin state call holds here with early | brought
        · exact .inl early
        · exact .inr ⟨[], call, calls, rfl, brought⟩
      · exact .inr ⟨call :: before, later, after, rfl, brought⟩

end

end EmuChef.Retention
