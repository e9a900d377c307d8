import Mathlib.Data.Finset.Card
import Mathlib.Logic.Relation

/-! Properties that hold throughout what a point depends on, and searches that stay on a path
without a cycle. -/

namespace EmuChef.Dependency

open Relation

variable {α : Type} {dependsOn : α → α → Prop} {good other : α → Prop}

def Throughout (dependsOn : α → α → Prop) (good : α → Prop) (point : α) : Prop :=
  ∀ reached, ReflTransGen dependsOn point reached → good reached

theorem throughout_iff {point : α} : Throughout dependsOn good point ↔
    good point ∧ ∀ next, dependsOn point next → Throughout dependsOn good next := by
  constructor
  · intro holds
    exact ⟨holds point .refl, fun next edge reached path => holds reached (.head edge path)⟩
  · rintro ⟨here, later⟩ reached path
    rcases path.cases_head with rfl | ⟨next, edge, rest⟩
    · exact here
    · exact later next edge reached rest

theorem Throughout.closed {point reached : α} (holds : Throughout dependsOn good point)
    (path : ReflTransGen dependsOn point reached) : Throughout dependsOn good reached :=
  fun last rest => holds last (path.trans rest)

theorem not_self_of_acc {relation : α → α → Prop} {point : α} (grounded : Acc relation point) :
    ¬ relation point point := by
  induction grounded with
  | intro point _ ih => exact fun loop => ih point loop loop

theorem not_cycle_of_acc {point : α} (grounded : Acc (fun next x => dependsOn x next) point) :
    ¬ TransGen dependsOn point point := by
  intro cycle
  exact not_self_of_acc grounded.transGen (transGen_swap.mpr cycle)

section

variable [DecidableEq α]

theorem mem_foldl_union {β : Type} {items : List β} {part : β → Finset α} {init : Finset α}
    {point : α} : point ∈ items.foldl (fun found item => found ∪ part item) init ↔
      point ∈ init ∨ ∃ item ∈ items, point ∈ part item := by
  induction items generalizing init with
  | nil => simp
  | cons item rest ih =>
      rw [List.foldl_cons, ih, Finset.mem_union]
      simp only [List.mem_cons, exists_eq_or_imp]
      tauto

def saturate (round : Finset α → Finset α) : Nat → Finset α → Finset α
  | 0, found => found
  | fuel + 1, found => if round found = found then found else saturate round fuel (round found)

theorem saturate_invariant {round : Finset α → Finset α} (invariant : Finset α → Prop)
    (keeps : ∀ found, invariant found → invariant (round found)) (fuel : Nat) (found : Finset α)
    (start : invariant found) : invariant (saturate round fuel found) := by
  induction fuel generalizing found with
  | zero => exact start
  | succ fuel ih =>
      rw [saturate]
      split
      next => exact start
      next => exact ih (round found) (keeps found start)

theorem round_saturate {round : Finset α → Finset α} (bound : Finset α)
    (grows : ∀ found, found ⊆ round found)
    (bounded : ∀ found, found ⊆ bound → round found ⊆ bound) (fuel : Nat) (found : Finset α) (inside : found ⊆ bound)
    (enough : bound.card < fuel + found.card) :
    round (saturate round fuel found) = saturate round fuel found := by
  induction fuel generalizing found with
  | zero =>
      have small := Finset.card_le_card inside
      omega
  | succ fuel ih =>
      rw [saturate]
      split
      next settled => exact settled
      next changes =>
        have larger : found.card < (round found).card :=
          Finset.card_lt_card ((grows found).ssubset_of_ne (Ne.symm changes))
        exact ih (round found) (bounded found inside) (by omega)

end

end EmuChef.Dependency
