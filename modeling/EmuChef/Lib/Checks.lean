import Mathlib.Data.List.Forall2

/-! Checks that answer `Except`: when a sequence of them succeeds. -/

namespace EmuChef.Checks

variable {ε α β γ : Type}

def require (holds : Prop) [Decidable holds] (stop : ε) : Except ε Unit :=
  if holds then .ok () else .error stop

@[simp] theorem require_eq_ok {holds : Prop} [Decidable holds] {stop : ε} :
    require holds stop = .ok () ↔ holds := by
  unfold require
  split
  next isTrue => exact ⟨fun _ => isTrue, fun _ => rfl⟩
  next isFalse => exact ⟨fun found => (nomatch found), fun isTrue => absurd isTrue isFalse⟩

theorem bind_eq_ok {check : Except ε α} {next : α → Except ε β} {result : β} :
    (check >>= next) = .ok result ↔ ∃ value, check = .ok value ∧ next value = .ok result := by
  cases check with
  | error stop =>
      constructor
      · exact fun found => nomatch found
      · rintro ⟨_, found, _⟩
        exact nomatch found
  | ok value =>
      constructor
      · exact fun found => ⟨value, rfl, found⟩
      · rintro ⟨other, same, found⟩
        cases same
        exact found

theorem toOption_eq_some {check : Except ε α} {result : α} :
    check.toOption = some result ↔ check = .ok result := by
  cases check with
  | error stop => simp [Except.toOption]
  | ok value => simp [Except.toOption]

theorem toOption_bind {check : Except ε α} {next : α → Except ε β} :
    (check >>= next).toOption = check.toOption.bind fun value => (next value).toOption := by
  cases check with
  | error stop => rfl
  | ok value => rfl

variable {items : List α}

theorem toOption_foldlM {step : β → α → Except ε β} {start : β} :
    (items.foldlM step start).toOption =
      items.foldlM (fun state item => (step state item).toOption) start := by
  induction items generalizing start with
  | nil => rfl
  | cons item rest ih =>
      rw [List.foldlM_cons, List.foldlM_cons, toOption_bind, funext fun _ => ih]
      rfl

theorem forM_eq_ok {check : α → Except ε Unit} :
    items.forM check = .ok () ↔ ∀ item ∈ items, check item = .ok () := by
  induction items with
  | nil =>
      constructor
      · exact fun _ _ member => nomatch member
      · exact fun _ => rfl
  | cons item rest ih =>
      change (check item >>= fun _ => rest.forM check) = .ok () ↔ _
      rw [bind_eq_ok, List.forall_mem_cons]
      constructor
      · rintro ⟨_, first, others⟩
        exact ⟨first, ih.mp others⟩
      · rintro ⟨first, others⟩
        exact ⟨(), first, ih.mpr others⟩

theorem mapM_eq_ok {check : α → Except ε β} {results : List β} :
    items.mapM check = .ok results ↔ List.Forall₂ (fun item result => check item = .ok result)
      items results := by
  induction items generalizing results with
  | nil =>
      constructor
      · intro found
        cases Except.ok.inj found
        exact .nil
      · rintro ⟨⟩
        rfl
  | cons item rest ih =>
      simp only [List.mapM_cons, bind_eq_ok]
      constructor
      · rintro ⟨value, first, others, mapped, built⟩
        cases Except.ok.inj built
        exact .cons first (ih.mp mapped)
      · intro related
        cases related with
        | cons first others => exact ⟨_, first, _, ih.mpr others, rfl⟩

theorem mem_right_of_forall₂ {related : α → β → Prop} {results : List β}
    (all : List.Forall₂ related items results) {item : α} (member : item ∈ items) :
    ∃ result ∈ results, related item result := by
  induction all with
  | nil => exact nomatch member
  | cons first others ih =>
      rcases List.mem_cons.mp member with rfl | later
      · exact ⟨_, by simp, first⟩
      · obtain ⟨result, listed, held⟩ := ih later
        exact ⟨result, by simp [listed], held⟩

theorem mem_left_of_forall₂ {related : α → β → Prop} {results : List β}
    (all : List.Forall₂ related items results) {result : β} (member : result ∈ results) :
    ∃ item ∈ items, related item result :=
  mem_right_of_forall₂ (List.Forall₂.flip all) member

theorem exists_mapM_eq_ok {check : α → Except ε β}
    (succeeds : ∀ item ∈ items, ∃ result, check item = .ok result) :
    ∃ results, items.mapM check = .ok results := by
  induction items with
  | nil => exact ⟨[], rfl⟩
  | cons item rest ih =>
      obtain ⟨value, first⟩ := succeeds item (by simp)
      obtain ⟨others, mapped⟩ := ih fun other member => succeeds other (by simp [member])
      exact ⟨value :: others, by simp [List.mapM_cons, first, mapped]; rfl⟩

/-- The invariant rule of a fold that succeeds, over the items passed so far. -/
theorem foldlM_invariant {step : β → α → Except ε β} {start final : β}
    (invariant : List α → β → Prop) (init : invariant [] start)
    (advance : ∀ passed item rest state next, items = passed ++ item :: rest →
      invariant passed state → step state item = .ok next → invariant (passed ++ [item]) next)
    (folded : items.foldlM step start = .ok final) : invariant items final := by
  suffices general : ∀ remaining passed state, items = passed ++ remaining →
      invariant passed state → remaining.foldlM step state = .ok final →
      invariant items final from
    general items [] start rfl init folded
  intro remaining
  induction remaining with
  | nil =>
      intro passed state split holds found
      cases Except.ok.inj found
      simpa [split] using holds
  | cons item rest ih =>
      intro passed state split holds found
      rw [List.foldlM_cons, bind_eq_ok] at found
      obtain ⟨next, stepped, others⟩ := found
      exact ih (passed ++ [item]) next (by simp [split])
        (advance passed item rest state next split holds stepped) others

end EmuChef.Checks
