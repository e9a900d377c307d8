import Mathlib.Data.List.Basic
import Mathlib.Data.List.Flatten
import Mathlib.Tactic.SplitIfs

/-! The compact JSON text of a flat object of texts and natural numbers, and a reader of it. -/

namespace EmuChef.JsonText

def quote : UInt8 := 0x22
def backslash : UInt8 := 0x5C
def colon : UInt8 := 0x3A
def comma : UInt8 := 0x2C
def openBrace : UInt8 := 0x7B
def closeBrace : UInt8 := 0x7D

def hexByte (digit : Nat) : UInt8 := UInt8.ofNat (Nat.digitChar digit).toNat

def escapeCode (letter : Char) : Option (List UInt8) :=
  if letter = '"' then some [quote]
  else if letter = '\\' then some [backslash]
  else if letter.toNat = 0x08 then some [0x62]
  else if letter.toNat = 0x09 then some [0x74]
  else if letter.toNat = 0x0A then some [0x6E]
  else if letter.toNat = 0x0C then some [0x66]
  else if letter.toNat = 0x0D then some [0x72]
  else if letter.toNat < 0x20 then
    some [0x75, 0x30, 0x30, hexByte (letter.toNat / 16), hexByte (letter.toNat % 16)]
  else none

def escapeChar (letter : Char) : List UInt8 :=
  match escapeCode letter with
  | some code => backslash :: code
  | none => String.utf8EncodeChar letter

def escapeText (text : List Char) : List UInt8 := text.flatMap escapeChar

def writeText (text : String) : List UInt8 := quote :: escapeText text.toList ++ [quote]

def decimal (number : Nat) : List UInt8 :=
  (Nat.toDigits 10 number).map fun digit => UInt8.ofNat digit.toNat

inductive Scalar where
  | text (value : String)
  | number (value : Nat)
  deriving DecidableEq

def writeScalar : Scalar → List UInt8
  | .text value => writeText value
  | .number value => decimal value

def Unescaped (text : String) : Prop := ∀ letter ∈ text.toList, escapeCode letter = none

instance decidableUnescaped (text : String) : Decidable (Unescaped text) :=
  inferInstanceAs (Decidable (∀ letter ∈ text.toList, escapeCode letter = none))

def writeField (field : String × Scalar) : List UInt8 :=
  writeText field.1 ++ colon :: writeScalar field.2

def writeFields : List (String × Scalar) → List UInt8
  | [] => [closeBrace]
  | [field] => writeField field ++ [closeBrace]
  | field :: next :: rest => writeField field ++ comma :: writeFields (next :: rest)

def writeObject (fields : List (String × Scalar)) : List UInt8 := openBrace :: writeFields fields

theorem toNat_ofNat_small {value : Nat} (small : value < 256) : (UInt8.ofNat value).toNat = value :=
  UInt8.toNat_ofNat_of_lt' small

variable {letter : Char}

theorem utf8_byte_large (wide : 0x80 ≤ letter.toNat) {byte : UInt8}
    (member : byte ∈ String.utf8EncodeChar letter) : 0x80 ≤ byte.toNat := by
  have valid : letter.val.toNat < 55296 ∨ 57343 < letter.val.toNat ∧ letter.val.toNat < 1114112 :=
    letter.valid
  have wide : 0x80 ≤ letter.val.toNat := wide
  unfold String.utf8EncodeChar at member
  rw [if_neg (by omega)] at member
  split_ifs at member
  all_goals
    simp only [List.mem_cons, List.not_mem_nil, or_false] at member
    rcases member with rfl | rfl | rfl | rfl
  all_goals
    rw [toNat_ofNat_small (by omega)]
    omega

theorem utf8_first_large (wide : 0x80 ≤ letter.toNat) {byte : UInt8}
    {more : List UInt8} (bytes : String.utf8EncodeChar letter = byte :: more) :
    0xC0 ≤ byte.toNat := by
  have valid : letter.val.toNat < 55296 ∨ 57343 < letter.val.toNat ∧ letter.val.toNat < 1114112 :=
    letter.valid
  have wide : 0x80 ≤ letter.val.toNat := wide
  unfold String.utf8EncodeChar at bytes
  rw [if_neg (by omega)] at bytes
  split_ifs at bytes
  all_goals
    rw [← (List.cons.inj bytes).1, toNat_ofNat_small (by omega)]
    omega

theorem utf8_ascii (narrow : letter.toNat < 0x80) :
    String.utf8EncodeChar letter = [UInt8.ofNat letter.toNat] := by
  have narrow : letter.val.toNat < 0x80 := narrow
  unfold String.utf8EncodeChar
  rw [if_pos (by omega)]
  rfl

def specials : List Char := '"' :: '\\' :: (List.range 0x20).map Char.ofNat

theorem mem_specials (escaped : escapeCode letter ≠ none) : letter ∈ specials := by
  by_cases control : letter.toNat < 0x20
  · apply List.mem_cons_of_mem
    apply List.mem_cons_of_mem
    exact List.mem_map.mpr ⟨letter.toNat, List.mem_range.mpr control, Char.ofNat_toNat letter⟩
  · by_cases isQuote : letter = '"'
    · exact isQuote ▸ List.mem_cons_self
    · by_cases isBackslash : letter = '\\'
      · exact isBackslash ▸ List.mem_cons_of_mem _ List.mem_cons_self
      · refine absurd ?_ escaped
        rw [escapeCode, if_neg isQuote, if_neg isBackslash, if_neg (by omega), if_neg (by omega),
          if_neg (by omega), if_neg (by omega), if_neg (by omega), if_neg control]

theorem specials_escaped : ∀ letter ∈ specials, (escapeChar letter).head? = some backslash := by
  have checked : specials.all (fun letter => (escapeChar letter).head? = some backslash) = true := by
    decide +kernel
  exact fun letter special => of_decide_eq_true (List.all_eq_true.mp checked letter special)

theorem specials_prefix_free : ∀ first ∈ specials, ∀ second ∈ specials,
    escapeChar first <+: escapeChar second → first = second := by
  have checked : specials.all (fun first => specials.all fun second =>
      escapeChar first <+: escapeChar second → first = second) = true := by
    decide +kernel
  intro first member second other
  exact of_decide_eq_true
    (List.all_eq_true.mp (List.all_eq_true.mp checked first member) second other)

theorem specials_code : ∀ letter ∈ specials, ∃ code ∈ (escapeChar letter)[1]?,
    escapeChar letter = backslash :: code :: (escapeChar letter).drop 2 ∧
      ∀ byte ∈ (escapeChar letter).drop 2, byte ≠ quote ∧ byte ≠ backslash := by
  have checked : specials.all (fun letter => ∃ code ∈ (escapeChar letter)[1]?,
      escapeChar letter = backslash :: code :: (escapeChar letter).drop 2 ∧
        ∀ byte ∈ (escapeChar letter).drop 2, byte ≠ quote ∧ byte ≠ backslash) = true := by
    decide +kernel
  exact fun letter special => of_decide_eq_true (List.all_eq_true.mp checked letter special)

theorem escapeChar_plain (plain : escapeCode letter = none) :
    escapeChar letter = String.utf8EncodeChar letter := by
  rw [escapeChar, plain]

theorem plain_ne (plain : escapeCode letter = none) :
    letter ≠ '"' ∧ letter ≠ '\\' ∧ 0x20 ≤ letter.toNat := by
  refine ⟨?_, ?_, ?_⟩
  · rintro rfl
    exact absurd plain (by decide)
  · rintro rfl
    exact absurd plain (by decide)
  · by_contra control
    have special : letter ∈ specials := by
      apply List.mem_cons_of_mem
      apply List.mem_cons_of_mem
      exact List.mem_map.mpr ⟨letter.toNat, List.mem_range.mpr (by omega), Char.ofNat_toNat letter⟩
    have checked : specials.all (fun other => escapeCode other ≠ none) = true := by decide +kernel
    exact of_decide_eq_true (List.all_eq_true.mp checked letter special) plain

theorem plain_byte (plain : escapeCode letter = none) {byte : UInt8}
    (member : byte ∈ String.utf8EncodeChar letter) : byte ≠ quote ∧ byte ≠ backslash := by
  obtain ⟨noQuote, noBackslash, -⟩ := plain_ne plain
  by_cases narrow : letter.toNat < 0x80
  · rw [utf8_ascii narrow, List.mem_singleton] at member
    have code : byte.toNat = letter.toNat := member ▸ toNat_ofNat_small (by omega)
    constructor
    · intro same
      apply noQuote
      apply Char.toNat_inj.mp
      rw [← code, same]
      rfl
    · intro same
      apply noBackslash
      apply Char.toNat_inj.mp
      rw [← code, same]
      rfl
  · have large := utf8_byte_large (by omega) member
    constructor
    · intro same
      exact absurd (same ▸ large) (by decide)
    · intro same
      exact absurd (same ▸ large) (by decide)

theorem utf8EncodeChar_ne_nil (letter : Char) : String.utf8EncodeChar letter ≠ [] := by
  intro empty
  have size := String.length_utf8EncodeChar letter
  rw [empty] at size
  have positive := letter.utf8Size_pos
  simp only [List.length_nil] at size
  omega

theorem head_escapeChar (letter : Char) (rest : List UInt8) :
    (escapeChar letter ++ rest).head? ≠ some quote := by
  cases escaped : escapeCode letter with
  | some code =>
    rw [escapeChar, escaped]
    exact fun same => absurd (Option.some.inj same) (by decide)
  | none =>
    rw [escapeChar_plain escaped]
    obtain ⟨byte, more, bytes⟩ := List.exists_cons_of_ne_nil (utf8EncodeChar_ne_nil letter)
    rw [bytes]
    intro same
    exact (plain_byte escaped (bytes ▸ List.mem_cons_self)).1 (Option.some.inj same)

def readEscape (bytes : List UInt8) : Option (Char × List UInt8) :=
  (specials.find? fun letter => (escapeChar letter).isPrefixOf bytes).map fun letter =>
    (letter, bytes.drop (escapeChar letter).length)

def readChar (bytes : List UInt8) : Option (Char × List UInt8) :=
  if bytes.head? = some backslash then readEscape bytes
  else (bytes.toByteArray.utf8DecodeChar? 0).map fun letter =>
    (letter, bytes.drop (String.utf8EncodeChar letter).length)

def readLetters : Nat → List UInt8 → Option (List Char × List UInt8)
  | 0, _ => none
  | fuel + 1, bytes =>
    if bytes.head? = some quote then some ([], bytes.tail)
    else (readChar bytes).bind fun read =>
      (readLetters fuel read.2).map fun more => (read.1 :: more.1, more.2)

def expect (byte : UInt8) (bytes : List UInt8) : Option (List UInt8) :=
  if bytes.head? = some byte then some bytes.tail else none

def readText (bytes : List UInt8) : Option (String × List UInt8) :=
  (expect quote bytes).bind fun rest =>
    (readLetters bytes.length rest).map fun read => (String.ofList read.1, read.2)

def isDigit (byte : UInt8) : Bool := 0x30 ≤ byte && byte ≤ 0x39

def digitsValue (digits : List UInt8) : Nat :=
  digits.foldl (fun sofar digit => 10 * sofar + (digit.toNat - 0x30)) 0

def readScalar (bytes : List UInt8) : Option (Scalar × List UInt8) :=
  if bytes.head? = some quote then (readText bytes).map fun read => (.text read.1, read.2)
  else some (.number (digitsValue (bytes.takeWhile isDigit)), bytes.dropWhile isDigit)

def readField (bytes : List UInt8) : Option ((String × Scalar) × List UInt8) :=
  (readText bytes).bind fun key => (expect colon key.2).bind fun rest =>
    (readScalar rest).map fun value => ((key.1, value.1), value.2)

def readFields : Nat → List UInt8 → Option (List (String × Scalar) × List UInt8)
  | 0, _ => none
  | fuel + 1, bytes => (readField bytes).bind fun field =>
    if field.2.head? = some closeBrace then some ([field.1], field.2.tail)
    else (expect comma field.2).bind fun rest =>
      (readFields fuel rest).map fun more => (field.1 :: more.1, more.2)

def readObject (bytes : List UInt8) : Option (List (String × Scalar) × List UInt8) :=
  (expect openBrace bytes).bind fun rest =>
    if rest.head? = some closeBrace then some ([], rest.tail) else readFields bytes.length rest

theorem readEscape_escapeChar (special : letter ∈ specials) (rest : List UInt8) :
    readEscape (escapeChar letter ++ rest) = some (letter, rest) := by
  have fits : (escapeChar letter).isPrefixOf (escapeChar letter ++ rest) = true :=
    List.isPrefixOf_iff_prefix.mpr (List.prefix_append _ _)
  have found : (specials.find? fun other =>
      (escapeChar other).isPrefixOf (escapeChar letter ++ rest)).isSome := by
    rw [List.find?_isSome]
    exact ⟨letter, special, fits⟩
  obtain ⟨other, first⟩ := Option.isSome_iff_exists.mp found
  have otherSpecial := List.mem_of_find?_eq_some first
  have otherFits : escapeChar other <+: escapeChar letter ++ rest := by
    have fitted := List.find?_some first
    exact List.isPrefixOf_iff_prefix.mp fitted
  have same : other = letter := by
    rcases List.prefix_or_prefix_of_prefix otherFits (List.prefix_append (escapeChar letter) rest)
      with shorter | longer
    · exact specials_prefix_free other otherSpecial letter special shorter
    · exact (specials_prefix_free letter special other otherSpecial longer).symm
  rw [readEscape, first, same, Option.map_some, List.drop_left]

theorem readChar_escapeChar (letter : Char) (rest : List UInt8) :
    readChar (escapeChar letter ++ rest) = some (letter, rest) := by
  by_cases plain : escapeCode letter = none
  · rw [escapeChar_plain plain, readChar]
    have start : (String.utf8EncodeChar letter ++ rest).head? ≠ some backslash := by
      obtain ⟨byte, more, bytes⟩ := List.exists_cons_of_ne_nil (utf8EncodeChar_ne_nil letter)
      rw [bytes]
      intro same
      exact (plain_byte plain (bytes ▸ List.mem_cons_self)).2 (Option.some.inj same)
    rw [if_neg start, List.toByteArray_append, ByteArray.utf8DecodeChar?_utf8EncodeChar_append,
      Option.map_some, List.drop_left]
  · have special := mem_specials plain
    obtain ⟨byte, more, bytes⟩ : ∃ byte more, escapeChar letter = byte :: more := by
      apply List.exists_cons_of_ne_nil
      intro empty
      have start := specials_escaped letter special
      rw [empty] at start
      cases start
    have start := specials_escaped letter special
    rw [readChar, if_pos (by rw [bytes] at start ⊢; exact start), readEscape_escapeChar special]

theorem length_escapeText (text : List Char) : text.length ≤ (escapeText text).length := by
  induction text with
  | nil => exact Nat.le_refl _
  | cons letter text ih =>
    have written : 0 < (escapeChar letter).length := by
      cases escaped : escapeCode letter with
      | some code =>
        rw [escapeChar, escaped]
        exact Nat.succ_pos _
      | none =>
        rw [escapeChar_plain escaped]
        exact List.length_pos_iff.mpr (utf8EncodeChar_ne_nil letter)
    simp only [escapeText, List.flatMap_cons, List.length_cons, List.length_append] at ih ⊢
    omega

theorem readLetters_escapeText {fuel : Nat} (text : List Char) (rest : List UInt8)
    (enough : text.length < fuel) :
    readLetters fuel (escapeText text ++ quote :: rest) = some (text, rest) := by
  induction text generalizing fuel with
  | nil =>
    obtain ⟨fuel, rfl⟩ := Nat.exists_eq_succ_of_ne_zero (Nat.ne_of_gt enough)
    rfl
  | cons letter text ih =>
    obtain ⟨fuel, rfl⟩ := Nat.exists_eq_succ_of_ne_zero (Nat.ne_of_gt (Nat.zero_lt_of_lt enough))
    have shorter : text.length < fuel := Nat.lt_of_succ_lt_succ enough
    have split : escapeText (letter :: text) ++ quote :: rest =
        escapeChar letter ++ (escapeText text ++ quote :: rest) := by
      rw [escapeText, List.flatMap_cons, List.append_assoc]
      rfl
    rw [split, readLetters, if_neg (head_escapeChar _ _), readChar_escapeChar, Option.bind_some,
      ih shorter]
    rfl

theorem expect_self (byte : UInt8) (rest : List UInt8) : expect byte (byte :: rest) = some rest := by
  rw [expect, List.head?_cons, if_pos rfl, List.tail_cons]

theorem readText_writeText (text : String) (rest : List UInt8) :
    readText (writeText text ++ rest) = some (text, rest) := by
  have opened : expect quote (writeText text ++ rest) =
      some (escapeText text.toList ++ quote :: rest) := by
    rw [writeText, List.cons_append, List.cons_append, expect_self, List.append_assoc]
    rfl
  have enough : text.toList.length < (writeText text ++ rest).length := by
    have written := length_escapeText text.toList
    simp only [writeText, List.length_append, List.length_cons, List.length_nil]
    omega
  rw [readText, opened, Option.bind_some, readLetters_escapeText _ _ enough, Option.map_some,
    String.ofList_toList]

theorem digit_byte {digit : Char} (isDigit : digit.isDigit) :
    (UInt8.ofNat digit.toNat).toNat = digit.toNat ∧ 0x30 ≤ digit.toNat ∧ digit.toNat ≤ 0x39 := by
  have bounds : 0x30 ≤ digit.toNat ∧ digit.toNat ≤ 0x39 := by
    rw [Char.isDigit, Bool.and_eq_true, decide_eq_true_eq, decide_eq_true_eq] at isDigit
    exact ⟨UInt32.le_iff_toNat_le.mp isDigit.1, UInt32.le_iff_toNat_le.mp isDigit.2⟩
  exact ⟨toNat_ofNat_small (by omega), bounds⟩

theorem decimal_digits (number : Nat) : ∀ byte ∈ decimal number, isDigit byte = true := by
  intro byte member
  obtain ⟨digit, listed, rfl⟩ := List.mem_map.mp member
  obtain ⟨code, least, most⟩ :=
    digit_byte (Nat.isDigit_of_mem_toDigits (by decide) (by decide) listed)
  rw [isDigit, Bool.and_eq_true, decide_eq_true_eq, decide_eq_true_eq, UInt8.le_iff_toNat_le,
    UInt8.le_iff_toNat_le, code]
  exact ⟨least, most⟩

theorem digitsValue_decimal (number : Nat) : digitsValue (decimal number) = number := by
  have bytes : ∀ digits : List Char, (∀ digit ∈ digits, digit.isDigit) → ∀ sofar,
      (digits.map fun digit => UInt8.ofNat digit.toNat).foldl
        (fun sofar digit => 10 * sofar + (digit.toNat - 0x30)) sofar =
      Nat.ofDigitChars 10 digits sofar := by
    intro digits
    induction digits with
    | nil => exact fun _ sofar => Nat.ofDigitChars_nil.symm
    | cons digit digits ih =>
      intro allDigits sofar
      rw [List.map_cons, List.foldl_cons, Nat.ofDigitChars_cons,
        ih fun other member => allDigits other (List.mem_cons_of_mem _ member),
        (digit_byte (allDigits digit List.mem_cons_self)).1]
      rfl
  rw [digitsValue, decimal,
    bytes _ fun digit member => Nat.isDigit_of_mem_toDigits (by decide) (by decide) member]
  exact Nat.ofDigitChars_ten_toDigits

theorem decimal_ne_nil (number : Nat) : decimal number ≠ [] := by
  rw [decimal, Ne, List.map_eq_nil_iff]
  exact Nat.toDigits_ne_nil

theorem takeWhile_decimal {keep : UInt8 → Bool} {number : Nat} {rest : List UInt8}
    (kept : ∀ byte, isDigit byte = true → keep byte = true)
    (stops : ∀ byte, rest.head? = some byte → keep byte = false) :
    (decimal number ++ rest).takeWhile keep = decimal number ∧
      (decimal number ++ rest).dropWhile keep = rest := by
  have all : ∀ byte ∈ decimal number, keep byte = true :=
    fun byte member => kept byte (decimal_digits number byte member)
  rw [List.takeWhile_append_of_pos all, List.dropWhile_append_of_pos all]
  cases rest with
  | nil => exact ⟨List.append_nil _, rfl⟩
  | cons byte rest =>
    have stop := stops byte rfl
    rw [List.takeWhile_cons, List.dropWhile_cons, stop]
    exact ⟨List.append_nil _, rfl⟩

theorem isDigit_quote : isDigit quote = false := rfl

theorem head_decimal (number : Nat) (rest : List UInt8) :
    (decimal number ++ rest).head? ≠ some quote := by
  obtain ⟨byte, more, bytes⟩ := List.exists_cons_of_ne_nil (decimal_ne_nil number)
  have digit := decimal_digits number byte (bytes ▸ List.mem_cons_self)
  rw [bytes]
  intro same
  rw [Option.some.inj same, isDigit_quote] at digit
  cases digit

theorem readScalar_writeScalar (value : Scalar) {rest : List UInt8}
    (stops : ∀ byte, rest.head? = some byte → isDigit byte = false) :
    readScalar (writeScalar value ++ rest) = some (value, rest) := by
  cases value with
  | text value =>
    have opened : (writeText value ++ rest).head? = some quote := rfl
    rw [readScalar, writeScalar, if_pos opened, readText_writeText, Option.map_some]
  | number value =>
    obtain ⟨taken, left⟩ := takeWhile_decimal (fun _ digit => digit) stops
    rw [readScalar, writeScalar, if_neg (head_decimal _ _), taken, left, digitsValue_decimal]

theorem readField_writeField (field : String × Scalar) {rest : List UInt8}
    (stops : ∀ byte, rest.head? = some byte → isDigit byte = false) :
    readField (writeField field ++ rest) = some (field, rest) := by
  rw [readField, writeField, List.append_assoc, readText_writeText, Option.bind_some,
    List.cons_append, expect_self, Option.bind_some, readScalar_writeScalar _ stops]
  rfl

theorem readFields_writeFields {fuel : Nat} (field : String × Scalar)
    (fields : List (String × Scalar)) (rest : List UInt8) (enough : fields.length < fuel) :
    readFields fuel (writeFields (field :: fields) ++ rest) = some (field :: fields, rest) := by
  induction fields generalizing fuel field with
  | nil =>
    obtain ⟨fuel, rfl⟩ := Nat.exists_eq_succ_of_ne_zero (Nat.ne_of_gt enough)
    have stops : ∀ byte, (closeBrace :: rest).head? = some byte → isDigit byte = false := by
      rintro byte ⟨⟩
      rfl
    rw [readFields, writeFields, List.append_assoc, List.singleton_append,
      readField_writeField _ stops]
    rfl
  | cons next fields ih =>
    obtain ⟨fuel, rfl⟩ := Nat.exists_eq_succ_of_ne_zero (Nat.ne_of_gt (Nat.zero_lt_of_lt enough))
    have stops : ∀ byte, (comma :: (writeFields (next :: fields) ++ rest)).head? = some byte →
        isDigit byte = false := by
      rintro byte ⟨⟩
      rfl
    have notClosed : (comma :: (writeFields (next :: fields) ++ rest)).head? ≠ some closeBrace :=
      fun same => absurd (Option.some.inj same) (by decide)
    rw [readFields, writeFields, List.append_assoc, List.cons_append,
      readField_writeField _ stops, Option.bind_some, if_neg notClosed, expect_self,
      Option.bind_some, ih next (Nat.lt_of_succ_lt_succ enough)]
    rfl

theorem length_writeFields (fields : List (String × Scalar)) :
    fields.length ≤ (writeFields fields).length := by
  fun_induction writeFields fields with
  | case1 => exact Nat.zero_le _
  | case2 field =>
    simp only [List.length_append, List.length_cons, List.length_nil]
    omega
  | case3 field next rest ih =>
    simp only [List.length_append, List.length_cons] at ih ⊢
    omega

/-- What is written is read back, up to where it ends. -/
theorem readObject_writeObject (fields : List (String × Scalar)) (rest : List UInt8) :
    readObject (writeObject fields ++ rest) = some (fields, rest) := by
  rw [readObject, writeObject, List.cons_append, expect_self, Option.bind_some]
  cases fields with
  | nil => rfl
  | cons field fields =>
    have opened : (writeFields (field :: fields) ++ rest).head? = some quote := by
      cases fields <;> rfl
    have enough : fields.length < (openBrace :: (writeFields (field :: fields) ++ rest)).length := by
      have written := length_writeFields (field :: fields)
      simp only [List.length_cons, List.length_append] at written ⊢
      omega
    rw [if_neg (by rw [opened]; exact fun same => absurd (Option.some.inj same) (by decide)),
      readFields_writeFields _ _ _ enough]

theorem writeObject_injective {first second : List (String × Scalar)}
    (same : writeObject first = writeObject second) : first = second := by
  have read := readObject_writeObject first []
  rw [List.append_nil, same, ← List.append_nil (writeObject second),
    readObject_writeObject] at read
  exact (congrArg Prod.fst (Option.some.inj read)).symm

end EmuChef.JsonText
