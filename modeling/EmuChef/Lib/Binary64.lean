import Mathlib.Algebra.Order.Field.Rat
import Mathlib.Data.Nat.Cast.Order.Field
import Mathlib.Order.Compare
import Mathlib.Tactic.FieldSimp
import Mathlib.Tactic.Linarith
import Mathlib.Tactic.Positivity

/-! The numbers that 64-bit floating-point words stand for, and comparisons with whole numbers. -/

namespace EmuChef.Binary64

structure Double where
  bits : Nat
  bound : bits < 2 ^ 64
  deriving DecidableEq

namespace Double

variable (word : Double)

def isNegative : Bool := 2 ^ 63 ≤ word.bits

def exponentField : Nat := word.bits / 2 ^ 52 % 2 ^ 11

def fractionField : Nat := word.bits % 2 ^ 52

def isFinite : Bool := word.exponentField ≠ 2047

def significand : Nat :=
  if word.exponentField = 0 then word.fractionField else word.fractionField + 2 ^ 52

def binaryExponent : Int :=
  if word.exponentField = 0 then -1074 else (word.exponentField : Int) - 1075

def magnitude : ℚ := word.significand * 2 ^ word.binaryExponent

def value : ℚ := if word.isNegative then -word.magnitude else word.magnitude

def neg : Double :=
  if negative : 2 ^ 63 ≤ word.bits then
    ⟨word.bits - 2 ^ 63, Nat.lt_of_le_of_lt (Nat.sub_le _ _) word.bound⟩
  else ⟨word.bits + 2 ^ 63, by omega⟩

variable {word}

theorem magnitude_nonneg : 0 ≤ word.magnitude :=
  mul_nonneg (Nat.cast_nonneg _) (zpow_nonneg (by norm_num) _)

theorem significand_lt : word.significand < 2 ^ 53 := by
  have fraction : word.fractionField < 2 ^ 52 := Nat.mod_lt _ (by decide)
  unfold significand
  split_ifs
  · omega
  · omega

theorem magnitude_neg : word.neg.magnitude = word.magnitude := by
  have bound := word.bound
  have fields : word.neg.exponentField = word.exponentField ∧
      word.neg.fractionField = word.fractionField := by
    unfold neg exponentField fractionField
    split_ifs
    · constructor
      · simp only
        omega
      · simp only
        omega
    · constructor
      · simp only
        omega
      · simp only
        omega
  unfold magnitude significand binaryExponent
  rw [fields.1, fields.2]

end Double

theorem eq_compare {α : Type} [LinearOrder α] {left right : α} {order : Ordering}
    (less : left < right → order = .lt) (equal : left = right → order = .eq)
    (greater : right < left → order = .gt) : order = compare left right := by
  rcases lt_trichotomy left right with smaller | same | larger
  · rw [less smaller, compare_lt_iff_lt.mpr smaller]
  · rw [equal same, compare_eq_iff_eq.mpr same]
  · rw [greater larger, compare_gt_iff_gt.mpr larger]

theorem compare_swap {α : Type} [LinearOrder α] (left right : α) :
    (compare left right).swap = compare right left := by
  refine eq_compare (fun less => ?_) (fun equal => ?_) (fun greater => ?_)
  · rw [compare_gt_iff_gt.mpr less]
    rfl
  · rw [compare_eq_iff_eq.mpr equal.symm]
    rfl
  · rw [compare_lt_iff_lt.mpr greater]
    rfl

theorem compare_neg (left right : ℚ) : compare (-left) (-right) = compare right left := by
  refine (eq_compare (fun less => ?_) (fun equal => ?_) (fun greater => ?_)).symm
  · exact compare_lt_iff_lt.mpr (by linarith)
  · exact compare_eq_iff_eq.mpr (by linarith)
  · exact compare_gt_iff_gt.mpr (by linarith)

theorem compare_natCast (left right : Nat) : compare (left : ℚ) right = compare left right := by
  refine (eq_compare (fun less => ?_) (fun equal => ?_) (fun greater => ?_)).symm
  · exact compare_lt_iff_lt.mpr (Nat.cast_lt.mp less)
  · exact compare_eq_iff_eq.mpr (Nat.cast_injective equal)
  · exact compare_gt_iff_gt.mpr (Nat.cast_lt.mp greater)

theorem compare_intCast (left right : Int) : compare (left : ℚ) right = compare left right := by
  refine (eq_compare (fun less => ?_) (fun equal => ?_) (fun greater => ?_)).symm
  · exact compare_lt_iff_lt.mpr (Int.cast_lt.mp less)
  · exact compare_eq_iff_eq.mpr (Int.cast_injective equal)
  · exact compare_gt_iff_gt.mpr (Int.cast_lt.mp greater)

theorem compare_quotient (whole dividend divisor : Nat) (positive : 0 < divisor) :
    compare (whole : ℚ) ((dividend : ℚ) / divisor) =
      (compare whole (dividend / divisor)).then
        (if dividend % divisor ≠ 0 then .lt else .eq) := by
  have scaled : (0 : ℚ) < divisor := Nat.cast_pos.mpr positive
  have parts := Nat.div_add_mod dividend divisor
  have rest := Nat.mod_lt dividend positive
  generalize dividend / divisor = quotient at parts
  generalize dividend % divisor = remainder at parts rest
  subst parts
  have split : ((divisor * quotient + remainder : Nat) : ℚ) / divisor =
      quotient + remainder / divisor := by
    push_cast
    field_simp
  rw [split]
  have small : (remainder : ℚ) / divisor < 1 := by
    rw [div_lt_one scaled]
    exact Nat.cast_lt.mpr rest
  have least : (0 : ℚ) ≤ (remainder : ℚ) / divisor := by positivity
  rcases lt_trichotomy whole quotient with less | same | greater
  · rw [compare_lt_iff_lt.mpr less]
    have cast : (whole : ℚ) < quotient := Nat.cast_lt.mpr less
    exact compare_lt_iff_lt.mpr (by linarith)
  · subst same
    rw [compare_eq_iff_eq.mpr rfl]
    simp only [Ordering.then]
    split_ifs with left
    · have positive' : (0 : ℚ) < (remainder : ℚ) / divisor :=
        div_pos (Nat.cast_pos.mpr (Nat.pos_of_ne_zero left)) scaled
      exact compare_lt_iff_lt.mpr (by linarith)
    · rw [not_not.mp left]
      exact compare_eq_iff_eq.mpr (by simp)
  · rw [compare_gt_iff_gt.mpr greater]
    have cast : (quotient : ℚ) + 1 ≤ whole := by exact_mod_cast greater
    exact compare_gt_iff_gt.mpr (by linarith)

end EmuChef.Binary64
