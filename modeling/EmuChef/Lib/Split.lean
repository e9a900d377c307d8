import Mathlib.Data.List.Basic

/-! Taking texts apart at a leading part, at the first occurrence of a separator or at
the last one. -/

namespace EmuChef.Split

variable {α : Type} [DecidableEq α]

def stripLead : List α → List α → Option (List α)
  | [], text => some text
  | _ :: _, [] => none
  | first :: lead, letter :: text => if first = letter then stripLead lead text else none

theorem stripLead_eq_some {lead text rest : List α} :
    stripLead lead text = some rest ↔ text = lead ++ rest := by
  induction lead generalizing text with
  | nil => simp [stripLead, eq_comm]
  | cons first lead ih =>
      cases text with
      | nil => simp [stripLead]
      | cons letter text =>
          by_cases same : first = letter
          · simp [stripLead, same, ih]
          · simp [stripLead, same, Ne.symm same]

@[simp] theorem stripLead_append (lead rest : List α) : stripLead lead (lead ++ rest) = some rest :=
  stripLead_eq_some.mpr rfl

def splitOnce (separator text : List α) : Option (List α × List α) :=
  match stripLead separator text with
  | some after => some ([], after)
  | none =>
      match text with
      | [] => none
      | letter :: rest => (splitOnce separator rest).map fun parts => (letter :: parts.1, parts.2)

def rsplitOnce (separator : α) : List α → Option (List α × List α)
  | [] => none
  | letter :: rest =>
      match rsplitOnce separator rest with
      | some parts => some (letter :: parts.1, parts.2)
      | none => if letter = separator then some ([], rest) else none

theorem splitOnce_sound {separator text before after : List α}
    (found : splitOnce separator text = some (before, after)) :
    text = before ++ separator ++ after := by
  induction text generalizing before with
  | nil =>
      rw [splitOnce] at found
      split at found
      next rest stripped =>
        obtain ⟨rfl, rfl⟩ : [] = before ∧ rest = after := by simpa using found
        exact stripLead_eq_some.mp stripped
      next => exact nomatch found
  | cons letter text ih =>
      rw [splitOnce] at found
      split at found
      next rest stripped =>
        obtain ⟨rfl, rfl⟩ : [] = before ∧ rest = after := by simpa using found
        exact stripLead_eq_some.mp stripped
      next =>
        obtain ⟨parts, inner, same⟩ := Option.map_eq_some_iff.mp found
        obtain ⟨rfl, rfl⟩ : letter :: parts.1 = before ∧ parts.2 = after := by simpa using same
        simp [ih inner]

theorem splitOnce_first {separator text before after : List α}
    (found : splitOnce separator text = some (before, after)) {other rest : List α}
    (occurs : text = other ++ separator ++ rest) : before.length ≤ other.length := by
  induction text generalizing before other with
  | nil =>
      rw [splitOnce] at found
      split at found
      next stripped =>
        obtain ⟨rfl, _⟩ : [] = before ∧ _ = after := by simpa using found
        exact Nat.zero_le _
      next => exact nomatch found
  | cons letter text ih =>
      rw [splitOnce] at found
      split at found
      next stripped =>
        obtain ⟨rfl, _⟩ : [] = before ∧ _ = after := by simpa using found
        exact Nat.zero_le _
      next missed =>
        obtain ⟨parts, inner, same⟩ := Option.map_eq_some_iff.mp found
        obtain ⟨rfl, rfl⟩ : letter :: parts.1 = before ∧ parts.2 = after := by simpa using same
        cases other with
        | nil =>
            rw [occurs, List.nil_append, stripLead_append] at missed
            exact nomatch missed
        | cons head tail =>
            obtain ⟨rfl, tailSplit⟩ : letter = head ∧ text = tail ++ (separator ++ rest) := by
              simpa using occurs
            have shorter := ih inner (by simpa using tailSplit : text = tail ++ separator ++ rest)
            simpa using shorter

theorem exists_splitOnce {separator text : List α} {other rest : List α}
    (occurs : text = other ++ separator ++ rest) :
    ∃ before after, splitOnce separator text = some (before, after) := by
  induction other generalizing text with
  | nil =>
      refine ⟨[], rest, ?_⟩
      rw [splitOnce.eq_def, occurs, List.nil_append, stripLead_append]
  | cons head tail ih =>
      subst occurs
      obtain ⟨before, after, inner⟩ := ih rfl
      rw [splitOnce.eq_def]
      split
      next found => exact ⟨[], _, rfl⟩
      next => exact ⟨head :: before, after, by simpa using inner⟩

theorem splitOnce_letter {separator : α} {text before after : List α} :
    splitOnce [separator] text = some (before, after) ↔
      text = before ++ separator :: after ∧ separator ∉ before := by
  induction text generalizing before with
  | nil => simp [splitOnce, stripLead]
  | cons letter text ih =>
      by_cases same : separator = letter
      · subst same
        simp only [splitOnce, stripLead, if_pos, Option.some.injEq, Prod.mk.injEq]
        constructor
        · rintro ⟨rfl, rfl⟩
          simp
        · rintro ⟨occurs, clean⟩
          cases before with
          | nil => simpa using occurs
          | cons head tail =>
              obtain ⟨rfl, _⟩ : separator = head ∧ text = tail ++ separator :: after := by
                simpa using occurs
              simp at clean
      · simp only [splitOnce, stripLead, if_neg same, Option.map_eq_some_iff, Prod.exists,
          Prod.mk.injEq]
        constructor
        · rintro ⟨first, last, found, rfl, rfl⟩
          obtain ⟨rfl, clean⟩ := ih.mp found
          simp [same, clean]
        · rintro ⟨occurs, clean⟩
          cases before with
          | nil => exact absurd (by simpa using occurs : letter = separator ∧ _).1.symm same
          | cons head tail =>
              obtain ⟨rfl, rfl⟩ : letter = head ∧ text = tail ++ separator :: after := by
                simpa using occurs
              exact ⟨tail, after, ih.mpr ⟨rfl, fun inside => clean (by simp [inside])⟩, rfl, rfl⟩

theorem append_cons_inj {separator : α} {before after first last : List α}
    (clean : separator ∉ before) (otherClean : separator ∉ first)
    (same : before ++ separator :: after = first ++ separator :: last) :
    before = first ∧ after = last := by
  have left : splitOnce [separator] (first ++ separator :: last) = some (before, after) :=
    splitOnce_letter.mpr ⟨same.symm, clean⟩
  have right : splitOnce [separator] (first ++ separator :: last) = some (first, last) :=
    splitOnce_letter.mpr ⟨rfl, otherClean⟩
  exact Prod.mk.inj (Option.some.inj (left.symm.trans right))

theorem rsplitOnce_eq_none {separator : α} {text : List α} :
    rsplitOnce separator text = none ↔ separator ∉ text := by
  induction text with
  | nil => simp [rsplitOnce]
  | cons letter rest ih =>
      cases found : rsplitOnce separator rest with
      | some parts =>
          have inside : separator ∈ rest := by simpa [found] using ih
          simp [rsplitOnce, found, inside]
      | none =>
          have absent : separator ∉ rest := ih.mp found
          by_cases same : letter = separator
          · simp [rsplitOnce, found, same]
          · simp [rsplitOnce, found, same, absent, Ne.symm same]

theorem rsplitOnce_eq_some {separator : α} {text before after : List α} :
    rsplitOnce separator text = some (before, after) ↔
      text = before ++ separator :: after ∧ separator ∉ after := by
  induction text generalizing before after with
  | nil => simp [rsplitOnce]
  | cons letter rest ih =>
      cases found : rsplitOnce separator rest with
      | some parts =>
          obtain ⟨upper, lower⟩ := parts
          obtain ⟨rfl, clean⟩ := ih.mp found
          simp only [rsplitOnce, found, Option.some.injEq, Prod.mk.injEq]
          constructor
          · rintro ⟨rfl, rfl⟩
            exact ⟨rfl, clean⟩
          · rintro ⟨occurs, otherClean⟩
            cases before with
            | nil =>
                obtain ⟨_, rfl⟩ : letter = separator ∧ upper ++ separator :: lower = after := by
                  simpa using occurs
                simp at otherClean
            | cons head tail =>
                obtain ⟨rfl, tailSplit⟩ :
                    letter = head ∧ upper ++ separator :: lower = tail ++ separator :: after := by
                  simpa using occurs
                obtain ⟨rfl, rfl⟩ : upper = tail ∧ lower = after := by
                  simpa using found.symm.trans (ih.mpr ⟨tailSplit, otherClean⟩)
                exact ⟨rfl, rfl⟩
      | none =>
          have absent : separator ∉ rest := rsplitOnce_eq_none.mp found
          simp only [rsplitOnce, found]
          constructor
          · intro top
            split at top
            next isSeparator =>
              obtain ⟨rfl, rfl⟩ : [] = before ∧ rest = after := by simpa using top
              exact ⟨by simp [isSeparator], absent⟩
            next => exact nomatch top
          · rintro ⟨occurs, _⟩
            cases before with
            | nil =>
                obtain ⟨rfl, rfl⟩ : letter = separator ∧ rest = after := by simpa using occurs
                simp
            | cons head tail =>
                obtain ⟨_, rfl⟩ : letter = head ∧ rest = tail ++ separator :: after := by
                  simpa using occurs
                exact absurd (by simp) absent

end EmuChef.Split
