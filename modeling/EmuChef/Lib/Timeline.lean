import Mathlib.Data.List.Chain

/-! An editing history in which no neighbours look alike never offers a move that changes nothing.
-/

namespace EmuChef

structure Timeline (α : Type) where
  past : List α
  present : α
  future : List α
  deriving DecidableEq

namespace Timeline

variable {α κ : Type} {key : α → κ} {line moved : Timeline α} {next : α}

def record (line : Timeline α) (next : α) : Timeline α := ⟨line.present :: line.past, next, []⟩

def back (line : Timeline α) : Option (Timeline α) :=
  match line.past with
  | [] => none
  | before :: past => some ⟨past, before, line.present :: line.future⟩

def forward (line : Timeline α) : Option (Timeline α) :=
  match line.future with
  | [] => none
  | next :: future => some ⟨line.present :: line.past, next, future⟩

def restrict (line : Timeline α) (keep : α → Bool) : Timeline α :=
  ⟨line.past.filter keep, line.present, line.future.filter keep⟩

section

variable {test : α → Prop}

structure Throughout (test : α → Prop) (line : Timeline α) : Prop where
  past : ∀ state ∈ line.past, test state
  present : test line.present
  future : ∀ state ∈ line.future, test state

theorem Throughout.alone {present : α} (holds : test present) : Throughout test ⟨[], present, []⟩ :=
  ⟨by simp, holds, by simp⟩

theorem Throughout.record (all : line.Throughout test) (new : test next) :
    (line.record next).Throughout test :=
  ⟨List.forall_mem_cons.mpr ⟨all.present, all.past⟩, new, by simp [Timeline.record]⟩

theorem Throughout.replace (all : line.Throughout test) {present : α} (new : test present) :
    Throughout test ⟨line.past, present, line.future⟩ := ⟨all.past, new, all.future⟩

theorem Throughout.restrict (all : line.Throughout test) {keep : α → Bool} :
    (line.restrict keep).Throughout test :=
  ⟨fun state kept => all.past state (List.mem_of_mem_filter kept), all.present,
    fun state kept => all.future state (List.mem_of_mem_filter kept)⟩

theorem Throughout.back (all : line.Throughout test) (undone : line.back = some moved) :
    moved.Throughout test := by
  obtain ⟨past, present, future⟩ := line
  cases past with
  | nil => simp [Timeline.back] at undone
  | cons before past =>
      obtain rfl := Option.some.inj undone
      obtain ⟨first, rest⟩ := List.forall_mem_cons.mp all.past
      exact ⟨rest, first, List.forall_mem_cons.mpr ⟨all.present, all.future⟩⟩

theorem Throughout.forward (all : line.Throughout test) (redone : line.forward = some moved) :
    moved.Throughout test := by
  obtain ⟨past, present, future⟩ := line
  cases future with
  | nil => simp [Timeline.forward] at redone
  | cons next future =>
      obtain rfl := Option.some.inj redone
      obtain ⟨first, rest⟩ := List.forall_mem_cons.mp all.future
      exact ⟨List.forall_mem_cons.mpr ⟨all.present, all.past⟩, first, rest⟩

end

structure Alternates (key : α → κ) (line : Timeline α) : Prop where
  past : (line.present :: line.past).IsChain fun one other => key one ≠ key other
  future : (line.present :: line.future).IsChain fun one other => key one ≠ key other

theorem Alternates.alone {present : α} : Alternates key ⟨[], present, []⟩ :=
  ⟨List.isChain_singleton _, List.isChain_singleton _⟩

theorem Alternates.record (alternates : line.Alternates key) (new : key line.present ≠ key next) :
    (line.record next).Alternates key :=
  ⟨List.isChain_cons_cons.mpr ⟨new.symm, alternates.past⟩, List.isChain_singleton _⟩

theorem Alternates.replace (alternates : line.Alternates key) {present : α}
    (same : key present = key line.present) :
    Alternates key ⟨line.past, present, line.future⟩ := by
  obtain ⟨past, future⟩ := alternates
  simp only [List.isChain_cons] at past future
  refine ⟨List.isChain_cons.mpr ⟨?_, past.2⟩, List.isChain_cons.mpr ⟨?_, future.2⟩⟩
  · rw [same]
    exact past.1
  · rw [same]
    exact future.1

theorem Alternates.back (alternates : line.Alternates key) (undone : line.back = some moved) :
    moved.Alternates key ∧ key moved.present ≠ key line.present := by
  obtain ⟨past, present, future⟩ := line
  cases past with
  | nil => simp [Timeline.back] at undone
  | cons before past =>
      obtain rfl := Option.some.inj undone
      obtain ⟨different, rest⟩ := List.isChain_cons_cons.mp alternates.past
      exact ⟨⟨rest, List.isChain_cons_cons.mpr ⟨different.symm, alternates.future⟩⟩, different.symm⟩

theorem Alternates.forward (alternates : line.Alternates key) (redone : line.forward = some moved) :
    moved.Alternates key ∧ key moved.present ≠ key line.present := by
  obtain ⟨past, present, future⟩ := line
  cases future with
  | nil => simp [Timeline.forward] at redone
  | cons next future =>
      obtain rfl := Option.some.inj redone
      obtain ⟨different, rest⟩ := List.isChain_cons_cons.mp alternates.future
      exact ⟨⟨List.isChain_cons_cons.mpr ⟨different.symm, alternates.past⟩, rest⟩, different.symm⟩

end Timeline

end EmuChef
