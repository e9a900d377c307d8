import Mathlib.Data.List.Basic

/-! Laws about what must stand before an event of a history. -/

namespace EmuChef.History

variable {E : Type} {law : E → List E → Prop}

def PrecededAfter (history : List E) (law : E → List E → Prop) (events : List E) : Prop :=
  ∀ earlier event later, events = earlier ++ event :: later → law event (history ++ earlier)

def Preceded (law : E → List E → Prop) (events : List E) : Prop := PrecededAfter [] law events

theorem precededAfter_nil (history : List E) : PrecededAfter history law [] := by
  intro earlier event later split
  simp at split

theorem precededAfter_cons {history : List E} {event : E} {events : List E} :
    PrecededAfter history law (event :: events) ↔
      law event history ∧ PrecededAfter (history ++ [event]) law events := by
  constructor
  · intro obeyed
    refine ⟨by simpa using obeyed [] event events rfl, ?_⟩
    rintro earlier other later rfl
    simpa using obeyed (event :: earlier) other later rfl
  · rintro ⟨head, tail⟩ earlier other later split
    cases earlier with
    | nil =>
        obtain ⟨rfl, rfl⟩ : event = other ∧ events = later := by simpa using split
        simpa using head
    | cons first rest =>
        obtain ⟨rfl, rfl⟩ : event = first ∧ events = rest ++ other :: later := by simpa using split
        simpa using tail rest other later rfl

theorem precededAfter_append {history before after : List E} :
    PrecededAfter history law (before ++ after) ↔
      PrecededAfter history law before ∧ PrecededAfter (history ++ before) law after := by
  induction before generalizing history with
  | nil => simp [precededAfter_nil]
  | cons event before ih =>
      rw [List.cons_append, precededAfter_cons, ih, precededAfter_cons, and_assoc]
      simp

def Stable (law : E → List E → Prop) : Prop :=
  ∀ event earlier more, law event earlier → law event (more ++ earlier)

theorem Preceded.after (stable : Stable law) {events : List E} (obeyed : Preceded law events)
    (history : List E) : PrecededAfter history law events := by
  intro earlier event later split
  exact stable event earlier history (obeyed earlier event later split)

theorem Preceded.append (stable : Stable law) {before after : List E}
    (first : Preceded law before) (last : Preceded law after) : Preceded law (before ++ after) :=
  precededAfter_append.mpr ⟨first, last.after stable _⟩

theorem Preceded.initial {before after : List E} (obeyed : Preceded law (before ++ after)) :
    Preceded law before :=
  (precededAfter_append.mp obeyed).1

theorem preceded_of_free {events : List E}
    (free : ∀ event ∈ events, ∀ earlier, law event earlier) : Preceded law events := by
  rintro earlier event later rfl
  exact free event (by simp) _

theorem Preceded.mono {weaker : E → List E → Prop} {events : List E}
    (obeyed : Preceded law events)
    (weaken : ∀ event earlier, law event earlier → weaker event earlier) :
    Preceded weaker events := by
  intro earlier event later split
  exact weaken event _ (obeyed earlier event later split)

end EmuChef.History
