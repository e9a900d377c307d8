import Mathlib.Data.List.Basic
import Mathlib.Data.List.Infix

/-! Lower-casing of text over given character tables, with the final sigma that depends on the
letters around it. -/

namespace EmuChef

structure CaseTables where
  lower : Char → List Char
  cased : Char → Bool
  ignorable : Char → Bool

namespace CaseTables

variable (tables : CaseTables)

def capitalSigma : Char := Char.ofNat 0x3a3

def smallSigma : Char := Char.ofNat 0x3c3

def finalSigma : Char := Char.ofNat 0x3c2

def ignorableThenCased (text : List Char) : Bool :=
  (text.dropWhile tables.ignorable).head?.any tables.cased

def lowerLetter (before : List Char) (letter : Char) (after : List Char) : List Char :=
  if letter = capitalSigma then
    if tables.ignorableThenCased before && !tables.ignorableThenCased after then [finalSigma]
    else [smallSigma]
  else tables.lower letter

def lowerBetween (before : List Char) : List Char → List Char → List Char
  | [], _ => []
  | letter :: text, after =>
      tables.lowerLetter before letter (text ++ after) ++
        lowerBetween (letter :: before) text after

def lowercase (text : List Char) : List Char := tables.lowerBetween [] text []

def Separates (letters : List Char) : Prop :=
  ∀ letter ∈ letters, tables.cased letter = false ∧ tables.ignorable letter = false

variable {tables}

theorem ignorableThenCased_append {pad : List Char} (separates : tables.Separates pad)
    (text : List Char) :
    tables.ignorableThenCased (text ++ pad) = tables.ignorableThenCased text := by
  induction text with
  | nil =>
      cases pad with
      | nil => rfl
      | cons letter pad =>
          have plain := separates letter List.mem_cons_self
          simp [ignorableThenCased, plain]
  | cons letter text ih =>
      rw [ignorableThenCased, ignorableThenCased, List.cons_append, List.dropWhile_cons,
        List.dropWhile_cons]
      by_cases ignored : tables.ignorable letter = true
      · rw [if_pos ignored, if_pos ignored]
        exact ih
      · rw [if_neg ignored, if_neg ignored]
        rfl

theorem lowerBetween_append (before left right after : List Char) :
    tables.lowerBetween before (left ++ right) after =
      tables.lowerBetween before left (right ++ after) ++
        tables.lowerBetween (left.reverse ++ before) right after := by
  induction left generalizing before with
  | nil => rfl
  | cons letter left ih =>
      rw [List.cons_append, lowerBetween, lowerBetween, ih, List.append_assoc, List.append_assoc,
        List.reverse_cons, List.append_assoc]
      rfl

theorem lowerBetween_pad {lead trail : List Char} (leading : tables.Separates lead)
    (trailing : tables.Separates trail) (text before : List Char) :
    tables.lowerBetween (before ++ lead) text trail = tables.lowerBetween before text [] := by
  induction text generalizing before with
  | nil => rfl
  | cons letter text ih =>
      rw [lowerBetween, lowerBetween, ← List.cons_append, ih (letter :: before), lowerLetter,
        lowerLetter, ignorableThenCased_append leading, ignorableThenCased_append trailing,
        List.append_nil]

theorem lowercase_infix {lead trail : List Char} (leading : tables.Separates lead)
    (trailing : tables.Separates trail) (text : List Char) :
    tables.lowercase text <:+: tables.lowercase (lead ++ text ++ trail) := by
  have reversed : tables.Separates lead.reverse := by
    intro letter member
    exact leading letter (List.mem_reverse.mp member)
  refine ⟨tables.lowerBetween [] lead (text ++ trail),
    tables.lowerBetween ((lead ++ text).reverse ++ []) trail [], ?_⟩
  have kept : tables.lowerBetween (lead.reverse ++ []) text (trail ++ []) =
      tables.lowerBetween [] text [] := by
    rw [List.append_nil, List.append_nil, ← List.nil_append lead.reverse]
    exact lowerBetween_pad reversed trailing text []
  rw [lowercase, lowercase, lowerBetween_append [] (lead ++ text) trail [],
    lowerBetween_append [] lead text (trail ++ []), kept, List.append_nil trail]

end CaseTables

end EmuChef
