import EmuChef.Authored.Document
import EmuChef.Lib.Binary64
import Mathlib.Data.Nat.Size

/-! The order of the numbers in App Definitions, and the values that a managed property takes. -/

namespace EmuChef.Numeric

open Binary64
open Authored (ConfigValueType)

/-- A JSON number as it is held: a word without a sign, a negative one, or a finite double. -/
inductive Number where
  | posInt (value : Nat) (bound : value < 2 ^ 64)
  | negInt (value : Int) (least : -2 ^ 63 ≤ value) (negative : value < 0)
  | float (word : Double) (finite : word.isFinite = true)

namespace Number

def held : Number → Nat ⊕ Int ⊕ Double
  | posInt value _ => .inl value
  | negInt value _ _ => .inr (.inl value)
  | float word _ => .inr (.inr word)

theorem held_injective : Function.Injective held := by
  intro first second same
  cases first <;> cases second <;> simp_all [held]

instance decidableEqNumber : DecidableEq Number := fun _ _ =>
  decidable_of_iff _ held_injective.eq_iff

def value : Number → ℚ
  | posInt value _ => value
  | negInt value _ _ => value
  | float word _ => word.value

def asI64 : Number → Option Int
  | posInt value _ => if value < 2 ^ 63 then some value else none
  | negInt value _ _ => some value
  | float _ _ => none

def asU64 : Number → Option Nat
  | posInt value _ => some value
  | negInt _ _ _ => none
  | float _ _ => none

def isInteger : Number → Bool
  | float _ _ => false
  | _ => true

end Number

inductive Value (σ : Type) where
  | null
  | bool (value : Bool)
  | number (value : Number)
  | string (value : String)
  | structured (content : σ)
  deriving DecidableEq

section

def compareIntegers (left right : Number) : Option Ordering :=
  match left.asI64, left.asU64, right.asI64, right.asU64 with
  | some left, _, some right, _ => some (compare left right)
  | some left, _, none, some right =>
      if 0 ≤ left then some (compare left.toNat right) else some .lt
  | none, some left, some right, _ =>
      if 0 ≤ right then some (compare left right.toNat) else some .gt
  | none, some left, none, some right => some (compare left right)
  | _, _, _, _ => none

def compareUnsignedIntegerToNonnegativeFloat (integer : Nat) (float : Double) : Ordering :=
  let exponentBits := (float.bits >>> 52) &&& 0x7ff
  let fraction := float.bits &&& (2 ^ 52 - 1)
  let significand := if exponentBits = 0 then fraction else fraction ||| 2 ^ 52
  let binaryExponent : Int :=
    if exponentBits = 0 then -1074 else (exponentBits : Int) - 1023 - 52
  if significand = 0 then compare integer 0
  else if 0 ≤ binaryExponent then
    if 64 < (significand.size : Int) + binaryExponent then .lt
    else compare integer ((significand <<< binaryExponent.toNat) % 2 ^ 64)
  else
    let fractionalBits := (-binaryExponent).toNat
    if 64 ≤ fractionalBits then if integer = 0 then .lt else .gt
    else
      match compare integer (significand >>> fractionalBits) with
      | .eq => if significand &&& (2 ^ fractionalBits - 1) ≠ 0 then .lt else .eq
      | ordering => ordering

def compareSignedIntegerToFloat (integer : Int) (float : Double) : Ordering :=
  if integer < 0 then
    if 0 ≤ float.value then .lt
    else (compareUnsignedIntegerToNonnegativeFloat integer.natAbs float.neg).swap
  else if float.value < 0 then .gt
  else compareUnsignedIntegerToNonnegativeFloat integer.toNat float

def compareUnsignedIntegerToFloat (integer : Nat) (float : Double) : Ordering :=
  if float.value < 0 then .gt else compareUnsignedIntegerToNonnegativeFloat integer float

def compareIntegerAndFloat (integer : Number) (float : Double) : Option Ordering :=
  if !float.isFinite then none
  else
    match integer.asI64 with
    | some integer => some (compareSignedIntegerToFloat integer float)
    | none => integer.asU64.map fun integer => compareUnsignedIntegerToFloat integer float

def compareNumbers (left right : Number) : Option Ordering :=
  match left, right with
  -- Finite words compare as the numbers that they stand for.
  | .float left _, .float right _ => some (compare left.value right.value)
  | .float left _, right => (compareIntegerAndFloat right left).map Ordering.swap
  | left, .float right _ => compareIntegerAndFloat left right
  | left, right => compareIntegers left right

variable {σ : Type}

def compareIntegerValues (left right : Value σ) : Option Ordering :=
  match left, right with
  | .number left, .number right => compareIntegers left right
  | _, _ => none

def compareNumberValues (left right : Value σ) : Option Ordering :=
  match left, right with
  | .number left, .number right => compareNumbers left right
  | _, _ => none

end

section

variable {σ : Type}

structure AppManagedPropertyValidators (σ : Type) where
  allowedValues : List (Value σ)
  minimum : Option (Value σ)
  maximum : Option (Value σ)
  minLength : Option Nat
  maxLength : Option Nat

structure AppManagedProperty (σ : Type) where
  typeName : ConfigValueType
  validators : AppManagedPropertyValidators σ

def matchesType (typeName : ConfigValueType) (value : Value σ) : Bool :=
  match typeName, value with
  | .string, .string _ => true
  | .integer, .number number => number.isInteger
  | .number, .number _ => true
  | .boolean, .bool _ => true
  | _, _ => false

def compareManagedNumericValues (typeName : ConfigValueType) (left right : Value σ) :
    Option Ordering :=
  match typeName with
  | .integer => compareIntegerValues left right
  | .number => compareNumberValues left right
  | _ => none

def managedPropertyValuesEqual [DecidableEq σ] (typeName : ConfigValueType)
    (left right : Value σ) : Option Bool :=
  match typeName with
  | .integer | .number => (compareManagedNumericValues typeName left right).map (· = .eq)
  | _ => some (left = right)

def textLength : Value σ → Option Nat
  | .string text => some text.length
  | _ => none

def managedPropertyValueIsValid [DecidableEq σ] (property : AppManagedProperty σ)
    (value : Value σ) : Bool :=
  let validators := property.validators
  value ≠ .null && matchesType property.typeName value &&
    (validators.allowedValues.isEmpty || validators.allowedValues.any fun allowed =>
      managedPropertyValuesEqual property.typeName value allowed = some true) &&
    validators.minimum.all (fun minimum =>
      (compareManagedNumericValues property.typeName value minimum).any (· ≠ .lt)) &&
    validators.maximum.all (fun maximum =>
      (compareManagedNumericValues property.typeName value maximum).any (· ≠ .gt)) &&
    validators.minLength.all (fun minLength =>
      (textLength value).any fun length => minLength ≤ length) &&
    validators.maxLength.all (fun maxLength =>
      (textLength value).any fun length => length ≤ maxLength)

end

section

variable {float : Double}

theorem exponentBits_eq : (float.bits >>> 52) &&& 0x7ff = float.exponentField := by
  rw [show 0x7ff = 2 ^ 11 - 1 from rfl, Nat.and_two_pow_sub_one_eq_mod, Nat.shiftRight_eq_div_pow]
  rfl

theorem fraction_eq : float.bits &&& (2 ^ 52 - 1) = float.fractionField := by
  rw [Nat.and_two_pow_sub_one_eq_mod]
  rfl

theorem significand_eq : (if float.exponentField = 0 then float.fractionField
    else float.fractionField ||| 2 ^ 52) = float.significand := by
  have bound : float.fractionField < 2 ^ 52 := Nat.mod_lt _ (by decide)
  unfold Double.significand
  split_ifs
  · rfl
  · have joined := Nat.two_pow_add_eq_or_of_lt bound 1
    rw [Nat.mul_one] at joined
    rw [Nat.or_comm, ← joined, Nat.add_comm]

theorem binaryExponent_eq : (if float.exponentField = 0 then (-1074 : Int)
    else (float.exponentField : Int) - 1023 - 52) = float.binaryExponent := by
  unfold Double.binaryExponent
  split_ifs
  · rfl
  · omega

theorem compareUnsignedIntegerToNonnegativeFloat_eq (integer : Nat) (bound : integer < 2 ^ 64) :
    compareUnsignedIntegerToNonnegativeFloat integer float =
      compare (integer : ℚ) float.magnitude := by
  unfold compareUnsignedIntegerToNonnegativeFloat
  simp only [exponentBits_eq, fraction_eq, significand_eq, binaryExponent_eq]
  have small := @Double.significand_lt float
  unfold Double.magnitude
  generalize float.significand = significand at small
  generalize float.binaryExponent = binaryExponent
  by_cases zero : significand = 0
  · rw [if_pos zero, zero]
    simp only [Nat.cast_zero, zero_mul]
    exact (compare_natCast integer 0).symm
  rw [if_neg zero]
  by_cases nonnegative : 0 ≤ binaryExponent
  · rw [if_pos nonnegative]
    obtain ⟨power, rfl⟩ := Int.eq_ofNat_of_zero_le nonnegative
    have whole : (significand : ℚ) * 2 ^ (power : Int) = ((significand * 2 ^ power : Nat) : ℚ) := by
      push_cast
      rw [zpow_natCast]
    rw [whole, compare_natCast, Int.toNat_natCast, Nat.shiftLeft_eq]
    by_cases large : 64 < (significand.size : Int) + power
    · rw [if_pos large]
      -- The highest bit of the significand alone is at 2^64 or above it.
      have top : 2 ^ (significand.size - 1) ≤ significand := by
        refine Nat.lt_size.mp ?_
        have positive := Nat.size_pos.mpr (Nat.pos_of_ne_zero zero)
        omega
      have shifted : 2 ^ 64 ≤ significand * 2 ^ power := by
        calc 2 ^ 64 ≤ 2 ^ (significand.size - 1 + power) := Nat.pow_le_pow_right (by decide) (by omega)
          _ = 2 ^ (significand.size - 1) * 2 ^ power := by rw [Nat.pow_add]
          _ ≤ significand * 2 ^ power := Nat.mul_le_mul_right _ top
      exact (compare_lt_iff_lt.mpr (Nat.lt_of_lt_of_le bound shifted)).symm
    · rw [if_neg large]
      have fits : significand * 2 ^ power < 2 ^ 64 := by
        calc significand * 2 ^ power < 2 ^ significand.size * 2 ^ power :=
              Nat.mul_lt_mul_of_pos_right (Nat.lt_size_self significand) (by positivity)
          _ = 2 ^ (significand.size + power) := by rw [Nat.pow_add]
          _ ≤ 2 ^ 64 := Nat.pow_le_pow_right (by decide) (by omega)
      rw [Nat.mod_eq_of_lt fits]
  · rw [if_neg nonnegative]
    obtain ⟨power, rfl⟩ : ∃ power : Nat, binaryExponent = -(power : Int) :=
      ⟨(-binaryExponent).toNat, by omega⟩
    rw [neg_neg, Int.toNat_natCast]
    have quotient : (significand : ℚ) * 2 ^ (-(power : Int)) =
        (significand : ℚ) / ((2 ^ power : Nat) : ℚ) := by
      rw [zpow_neg, zpow_natCast, div_eq_mul_inv]
      push_cast
      rfl
    rw [quotient, compare_quotient integer significand (2 ^ power) (by positivity),
      Nat.shiftRight_eq_div_pow, Nat.and_two_pow_sub_one_eq_mod]
    by_cases tiny : 64 ≤ power
    · rw [if_pos tiny]
      have below : significand < 2 ^ power :=
        Nat.lt_of_lt_of_le small (Nat.pow_le_pow_right (by decide) (by omega))
      rw [Nat.div_eq_of_lt below, Nat.mod_eq_of_lt below]
      by_cases none : integer = 0
      · simp [none, zero]
      · rw [if_neg none, compare_gt_iff_gt.mpr (Nat.pos_of_ne_zero none)]
        rfl
    · rw [if_neg tiny]
      cases compare integer (significand / 2 ^ power)
      all_goals rfl

end

theorem value_of_nonneg {float : Double} (nonneg : 0 ≤ float.value) :
    float.value = float.magnitude := by
  have least := @Double.magnitude_nonneg float
  unfold Double.value at nonneg ⊢
  split_ifs at nonneg ⊢
  · linarith
  · rfl

theorem value_of_neg {float : Double} (negative : float.value < 0) :
    float.value = -float.neg.magnitude := by
  have least := @Double.magnitude_nonneg float
  rw [Double.magnitude_neg]
  unfold Double.value at negative ⊢
  split_ifs at negative ⊢
  · rfl
  · linarith

theorem compareSignedIntegerToFloat_eq {integer : Int} (float : Double)
    (least : -2 ^ 63 ≤ integer) (most : integer < 2 ^ 63) :
    compareSignedIntegerToFloat integer float = compare (integer : ℚ) float.value := by
  unfold compareSignedIntegerToFloat
  by_cases negative : integer < 0
  · rw [if_pos negative]
    have below : (integer : ℚ) < 0 := by exact_mod_cast negative
    by_cases nonneg : 0 ≤ float.value
    · rw [if_pos nonneg]
      exact (compare_lt_iff_lt.mpr (lt_of_lt_of_le below nonneg)).symm
    · rw [if_neg nonneg, compareUnsignedIntegerToNonnegativeFloat_eq _ (by omega), compare_swap,
        value_of_neg (not_le.mp nonneg)]
      have mirrored : (integer : ℚ) = -((integer.natAbs : Nat) : ℚ) := by
        have whole : integer = -(integer.natAbs : Int) := by omega
        have cast := congrArg (Int.cast : Int → ℚ) whole
        rwa [Int.cast_neg, Int.cast_natCast] at cast
      rw [mirrored, compare_neg]
  · rw [if_neg negative]
    by_cases below : float.value < 0
    · rw [if_pos below]
      have above : (0 : ℚ) ≤ integer := by exact_mod_cast not_lt.mp negative
      exact (compare_gt_iff_gt.mpr (lt_of_lt_of_le below above)).symm
    · rw [if_neg below, compareUnsignedIntegerToNonnegativeFloat_eq _ (by omega),
        value_of_nonneg (not_lt.mp below)]
      have whole : (integer : ℚ) = ((integer.toNat : Nat) : ℚ) := by
        have same : integer = (integer.toNat : Int) := by omega
        conv_lhs => rw [same]
        push_cast
        rfl
      rw [whole]

theorem compareUnsignedIntegerToFloat_eq {integer : Nat} (float : Double)
    (bound : integer < 2 ^ 64) :
    compareUnsignedIntegerToFloat integer float = compare (integer : ℚ) float.value := by
  unfold compareUnsignedIntegerToFloat
  by_cases below : float.value < 0
  · rw [if_pos below]
    exact (compare_gt_iff_gt.mpr (lt_of_lt_of_le below (Nat.cast_nonneg integer))).symm
  · rw [if_neg below, compareUnsignedIntegerToNonnegativeFloat_eq _ bound,
      value_of_nonneg (not_lt.mp below)]

theorem compareIntegerAndFloat_eq {integer : Number} (whole : integer.isInteger = true)
    {float : Double} (finite : float.isFinite = true) :
    compareIntegerAndFloat integer float = some (compare integer.value float.value) := by
  unfold compareIntegerAndFloat
  rw [finite]
  simp only [Bool.not_true, Bool.false_eq_true, if_false]
  cases integer with
  | float word _ => cases whole
  | negInt value least negative =>
      simp only [Number.asI64, Number.value]
      rw [compareSignedIntegerToFloat_eq float least (by omega)]
  | posInt value bound =>
      simp only [Number.asI64, Number.asU64, Number.value]
      by_cases small : value < 2 ^ 63
      · rw [if_pos small]
        simp only
        rw [compareSignedIntegerToFloat_eq float (by omega) (by exact_mod_cast small)]
        push_cast
        rfl
      · rw [if_neg small]
        simp only [Option.map_some]
        rw [compareUnsignedIntegerToFloat_eq float bound]

theorem integer_cases {number : Number} (whole : number.isInteger = true) :
    (∃ signed : Int, number.asI64 = some signed ∧ number.value = signed) ∨
      ∃ unsigned : Nat, number.asI64 = none ∧ number.asU64 = some unsigned ∧
        number.value = unsigned ∧ ∀ other : Number, ∀ signed, other.asI64 = some signed →
          signed < unsigned := by
  cases number with
  | float word _ => cases whole
  | negInt value least negative => exact .inl ⟨value, rfl, rfl⟩
  | posInt value bound =>
      by_cases small : value < 2 ^ 63
      · refine .inl ⟨value, if_pos small, ?_⟩
        simp [Number.value]
      · refine .inr ⟨value, if_neg small, rfl, rfl, fun other signed found => ?_⟩
        cases other with
        | float word _ => cases found
        | negInt other _ negative =>
            cases found
            omega
        | posInt other _ =>
            simp only [Number.asI64] at found
            split_ifs at found
            cases found
            omega

theorem compareIntegers_eq {left right : Number} (first : left.isInteger = true)
    (second : right.isInteger = true) :
    compareIntegers left right = some (compare left.value right.value) := by
  unfold compareIntegers
  rcases integer_cases first with ⟨signed, read, meant⟩ | ⟨unsigned, none, read, meant, above⟩
  · rcases integer_cases second with ⟨other, read', meant'⟩ | ⟨other, none', read', meant', above'⟩
    · simp only [read, read', meant, meant', compare_intCast]
    · have less := above' left signed read
      simp only [read, none', read', meant, meant']
      rw [show ((other : Nat) : ℚ) = ((other : Int) : ℚ) by push_cast; rfl, compare_intCast,
        compare_lt_iff_lt.mpr less]
      split_ifs with nonneg
      · exact congrArg some (compare_lt_iff_lt.mpr (by omega))
      · rfl
  · rcases integer_cases second with ⟨other, read', meant'⟩ | ⟨other, none', read', meant', -⟩
    · have greater := above right other read'
      simp only [none, read, read', meant, meant']
      rw [show ((unsigned : Nat) : ℚ) = ((unsigned : Int) : ℚ) by push_cast; rfl, compare_intCast,
        compare_gt_iff_gt.mpr greater]
      split_ifs with nonneg
      · exact congrArg some (compare_gt_iff_gt.mpr (by omega))
      · rfl
    · simp only [none, read, none', read', meant, meant', compare_natCast]

theorem compareNumbers_eq (left right : Number) :
    compareNumbers left right = some (compare left.value right.value) := by
  cases left with
  | float word finite =>
      cases right with
      | float other _ => rfl
      | posInt value bound =>
          simp only [compareNumbers]
          rw [compareIntegerAndFloat_eq rfl finite, Option.map_some, compare_swap]
          rfl
      | negInt value least negative =>
          simp only [compareNumbers]
          rw [compareIntegerAndFloat_eq rfl finite, Option.map_some, compare_swap]
          rfl
  | posInt value bound =>
      cases right with
      | float other finite => exact @compareIntegerAndFloat_eq (.posInt value bound) rfl other finite
      | posInt other small => exact @compareIntegers_eq (.posInt value bound) (.posInt other small) rfl rfl
      | negInt other large below =>
          exact @compareIntegers_eq (.posInt value bound) (.negInt other large below) rfl rfl
  | negInt value least negative =>
      cases right with
      | float other finite =>
          exact @compareIntegerAndFloat_eq (.negInt value least negative) rfl other finite
      | posInt other small =>
          exact @compareIntegers_eq (.negInt value least negative) (.posInt other small) rfl rfl
      | negInt other large below =>
          exact @compareIntegers_eq (.negInt value least negative) (.negInt other large below) rfl rfl

section

variable {σ : Type}

def Comparable (typeName : ConfigValueType) (value : Value σ) (number : Number) : Prop :=
  value = .number number ∧ (typeName = .integer → number.isInteger = true)

structure WithinValidators (typeName : ConfigValueType) (validators : AppManagedPropertyValidators σ)
    (number : Number) : Prop where
  allowed : validators.allowedValues = [] ∨ ∃ allowed ∈ validators.allowedValues,
    ∃ other, Comparable typeName allowed other ∧ number.value = other.value
  minimum : ∀ minimum ∈ validators.minimum,
    ∃ other, Comparable typeName minimum other ∧ other.value ≤ number.value
  maximum : ∀ maximum ∈ validators.maximum,
    ∃ other, Comparable typeName maximum other ∧ number.value ≤ other.value

theorem compareIntegers_eq_some {left right : Number} (whole : left.isInteger = true)
    {order : Ordering} : compareIntegers left right = some order ↔
      right.isInteger = true ∧ compare left.value right.value = order := by
  cases kind : right.isInteger with
  | true => simp [compareIntegers_eq whole kind]
  | false =>
      cases right with
      | posInt value _ => cases kind
      | negInt value _ _ => cases kind
      | float word _ => simp [compareIntegers, Number.asI64, Number.asU64]

theorem compareManaged_eq_some {typeName : ConfigValueType} {number : Number} {value : Value σ}
    {order : Ordering} (matched : matchesType typeName (.number number : Value σ) = true) :
    compareManagedNumericValues typeName (.number number) value = some order ↔
      ∃ other, Comparable typeName value other ∧ compare number.value other.value = order := by
  cases typeName with
  | string => cases matched
  | boolean => cases matched
  | integer =>
      cases value with
      | number other =>
          refine (compareIntegers_eq_some matched).trans ?_
          simp [Comparable]
      | _ => simp [compareManagedNumericValues, compareIntegerValues, Comparable]
  | number =>
      cases value with
      | number other =>
          simp [compareManagedNumericValues, compareNumberValues, compareNumbers_eq, Comparable]
      | _ => simp [compareManagedNumericValues, compareNumberValues, Comparable]

theorem any_compareManaged {typeName : ConfigValueType} {number : Number} {value : Value σ}
    (matched : matchesType typeName (.number number : Value σ) = true) (test : Ordering → Bool) :
    (compareManagedNumericValues typeName (.number number) value).any test = true ↔
      ∃ other, Comparable typeName value other ∧
        test (compare number.value other.value) = true := by
  rw [Option.any_eq_true]
  constructor
  · rintro ⟨order, found, passes⟩
    obtain ⟨other, comparable, rfl⟩ := (compareManaged_eq_some matched).mp found
    exact ⟨other, comparable, passes⟩
  · rintro ⟨other, comparable, passes⟩
    exact ⟨_, (compareManaged_eq_some matched).mpr ⟨other, comparable, rfl⟩, passes⟩

theorem valuesEqual_iff [DecidableEq σ] {typeName : ConfigValueType} {number : Number}
    {value : Value σ} (matched : matchesType typeName (.number number : Value σ) = true) :
    managedPropertyValuesEqual typeName (.number number) value = some true ↔
      ∃ other, Comparable typeName value other ∧ number.value = other.value := by
  have equal : managedPropertyValuesEqual typeName (.number number) value =
      (compareManagedNumericValues typeName (.number number) value).map
        fun order => decide (order = .eq) := by
    cases typeName with
    | string => cases matched
    | boolean => cases matched
    | integer => rfl
    | number => rfl
  rw [equal, Option.map_eq_some_iff]
  constructor
  · rintro ⟨order, found, same⟩
    obtain ⟨other, comparable, rfl⟩ := (compareManaged_eq_some matched).mp found
    exact ⟨other, comparable, compare_eq_iff_eq.mp (of_decide_eq_true same)⟩
  · rintro ⟨other, comparable, same⟩
    exact ⟨_, (compareManaged_eq_some matched).mpr ⟨other, comparable, rfl⟩,
      decide_eq_true (compare_eq_iff_eq.mpr same)⟩

theorem managedPropertyValueIsValid_number [DecidableEq σ] (property : AppManagedProperty σ)
    (number : Number) : managedPropertyValueIsValid property (.number number) = true ↔
      matchesType property.typeName (.number number : Value σ) = true ∧
        property.validators.minLength = none ∧ property.validators.maxLength = none ∧
        WithinValidators property.typeName property.validators number := by
  unfold managedPropertyValueIsValid
  cases matched : matchesType property.typeName (.number number : Value σ) with
  | false => simp
  | true =>
      have lengths (bound : Option Nat) (test : Nat → Nat → Bool) :
          bound.all (fun limit => (textLength (.number number : Value σ)).any (test limit)) = true ↔
            bound = none := by
        cases bound
        all_goals simp [textLength]
      have lower (bound : Option (Value σ)) : bound.all (fun minimum =>
          (compareManagedNumericValues property.typeName (.number number) minimum).any (· ≠ .lt)) =
            true ↔ ∀ minimum ∈ bound, ∃ other, Comparable property.typeName minimum other ∧
              other.value ≤ number.value := by
        rw [Option.all_eq_true]
        refine forall₂_congr fun minimum _ => ?_
        rw [any_compareManaged matched]
        simp only [ne_eq, compare_lt_iff_lt, not_lt, decide_eq_true_eq]
      have upper (bound : Option (Value σ)) : bound.all (fun maximum =>
          (compareManagedNumericValues property.typeName (.number number) maximum).any (· ≠ .gt)) =
            true ↔ ∀ maximum ∈ bound, ∃ other, Comparable property.typeName maximum other ∧
              number.value ≤ other.value := by
        rw [Option.all_eq_true]
        refine forall₂_congr fun maximum _ => ?_
        rw [any_compareManaged matched]
        simp only [ne_eq, compare_gt_iff_gt, not_lt, decide_eq_true_eq]
      have allowed : (property.validators.allowedValues.isEmpty ||
          property.validators.allowedValues.any fun allowed =>
            managedPropertyValuesEqual property.typeName (.number number) allowed = some true) =
              true ↔ property.validators.allowedValues = [] ∨
                ∃ allowed ∈ property.validators.allowedValues,
                  ∃ other, Comparable property.typeName allowed other ∧
                    number.value = other.value := by
        rw [Bool.or_eq_true, List.isEmpty_iff, List.any_eq_true]
        simp only [decide_eq_true_eq, valuesEqual_iff matched]
      simp only [Bool.and_eq_true, lengths, lower, upper, allowed, decide_eq_true_eq]
      constructor
      · rintro ⟨⟨⟨⟨⟨-, one⟩, least⟩, most⟩, short⟩, long⟩
        exact ⟨trivial, short, long, one, least, most⟩
      · rintro ⟨-, short, long, one, least, most⟩
        exact ⟨⟨⟨⟨⟨⟨(fun same => by cases same), trivial⟩, one⟩, least⟩, most⟩, short⟩, long⟩

/-- The order of two values that are numbers is that of the exact numbers: total, and compatible
with equality whichever way the numbers are held. A property takes a number of its type exactly
when the exact number satisfies the validators. -/
theorem number_order_exact [DecidableEq σ] :
    (∀ left right : Number, compareNumberValues (.number left : Value σ) (.number right) =
      some (compare left.value right.value)) ∧
    (∀ left right : Number, compareNumberValues (.number right : Value σ) (.number left) =
      (compareNumberValues (.number left : Value σ) (.number right)).map Ordering.swap) ∧
    (∀ left middle right : Number,
      compareNumberValues (.number left : Value σ) (.number middle) ≠ some .gt →
      compareNumberValues (.number middle : Value σ) (.number right) ≠ some .gt →
      compareNumberValues (.number left : Value σ) (.number right) ≠ some .gt) ∧
    (∀ left right : Number, compareNumberValues (.number left : Value σ) (.number right) =
      some .eq ↔ left.value = right.value) ∧
    ∀ (property : AppManagedProperty σ) (number : Number),
      managedPropertyValueIsValid property (.number number) = true ↔
        matchesType property.typeName (.number number : Value σ) = true ∧
          property.validators.minLength = none ∧ property.validators.maxLength = none ∧
          WithinValidators property.typeName property.validators number := by
  have exact' (left right : Number) : compareNumberValues (.number left : Value σ) (.number right) =
      some (compare left.value right.value) := compareNumbers_eq left right
  refine ⟨exact', fun left right => ?_, fun left middle right => ?_, fun left right => ?_,
    managedPropertyValueIsValid_number⟩
  · rw [exact', exact', Option.map_some, compare_swap]
  · simp only [exact', ne_eq, Option.some.injEq, compare_gt_iff_gt, not_lt]
    exact le_trans
  · rw [exact', Option.some.injEq, compare_eq_iff_eq]

def oneDouble : Double := ⟨0x3ff0000000000000, by decide⟩

/-- A property of integers does not take the double 1.0, though no validator is against it. -/
theorem not_valid_by_value : ¬∀ (property : AppManagedProperty Unit) (number : Number),
    property.typeName = .integer ∨ property.typeName = .number →
      (managedPropertyValueIsValid property (.number number) = true ↔
        WithinValidators property.typeName property.validators number) := by
  intro claimed
  have valid := (claimed ⟨.integer, ⟨[], none, none, none, none⟩⟩ (.float oneDouble (by decide))
    (.inl rfl)).mpr ⟨.inl rfl, fun _ found => (by cases found), fun _ found => (by cases found)⟩
  cases ((managedPropertyValueIsValid_number _ _).mp valid).1

end

end EmuChef.Numeric
