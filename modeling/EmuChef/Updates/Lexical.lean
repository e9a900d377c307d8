import EmuChef.Artifact.Utf8Law
import EmuChef.Lib.JsonText
import Mathlib.Data.List.Chain

/-! The byte scan an update manifest passes before it is decoded. -/

namespace EmuChef.Updates

open EmuChef.Artifact
open EmuChef.JsonText

inductive Fault where
  | rejected
  | panicked
  deriving DecidableEq

def maxSafeInteger : Nat := 9007199254740991

def fromUtf8 (bytes : List UInt8) : Option (List Char) :=
  if textBytes (fromUtf8Lossy bytes) = bytes then some (fromUtf8Lossy bytes) else none

def isCharBoundary : List UInt8 → Bool
  | [] => true
  | byte :: _ => !isContinuation byte

def sliceText (fromStart fromIndex slice : List UInt8) : Except Fault (List UInt8) :=
  if isCharBoundary fromStart && isCharBoundary fromIndex then .ok slice else .error .panicked

structure ScannedString where
  body : List UInt8
  escaped : Bool
  after : List UInt8
  deriving DecidableEq

def ScannedString.add (lead : List UInt8) (escaped : Bool) (scanned : ScannedString) :
    ScannedString :=
  { scanned with body := lead ++ scanned.body, escaped := escaped || scanned.escaped }

/-- The loop behind an opening quote. `after` is what follows the closing quote; a backslash moves
the index by two, also past the end. -/
def scanString : List UInt8 → Option ScannedString
  | [] => none
  | [byte] => if byte = quote then some ⟨[], false, []⟩ else none
  | byte :: next :: rest =>
    if byte = backslash then (scanString rest).map (.add [byte, next] true)
    else if byte = quote then some ⟨[], false, next :: rest⟩
    else (scanString (next :: rest)).map (.add [byte] false)

def isAsciiWhitespace (byte : UInt8) : Bool :=
  byte = 0x20 || byte = 0x09 || byte = 0x0A || byte = 0x0C || byte = 0x0D

def startsNumber (byte : UInt8) : Bool := byte = 0x2D || isDigit byte

def endsNumber (byte : UInt8) : Bool :=
  byte = comma || byte = closeBrace || byte = 0x5D || byte = 0x20 || byte = 0x0A || byte = 0x0D ||
    byte = 0x09

def numberRejected (token : List UInt8) : Bool :=
  token.head? = some 0x2D || !token.all isDigit || (1 < token.length && token.head? = some 0x30) ||
    maxSafeInteger < digitsValue token

theorem scanString_suffix {bytes : List UInt8} {scanned : ScannedString}
    (found : scanString bytes = some scanned) : quote :: scanned.after <:+ bytes := by
  fun_induction scanString bytes generalizing scanned with
  | case1 => cases found
  | case2 =>
    cases found
    exact List.suffix_refl _
  | case3 => cases found
  | case4 next rest ih =>
    obtain ⟨inner, read, rfl⟩ := Option.map_eq_some_iff.mp found
    have inside := ih read
    exact inside.trans ((List.suffix_cons _ _).trans (List.suffix_cons _ _))
  | case5 next rest =>
    cases found
    exact List.suffix_refl _
  | case6 byte next rest _ _ ih =>
    obtain ⟨inner, read, rfl⟩ := Option.map_eq_some_iff.mp found
    have inside := ih read
    exact inside.trans (List.suffix_cons _ _)

theorem scanString_shorter {bytes : List UInt8} {scanned : ScannedString}
    (found : scanString bytes = some scanned) : scanned.after.length < bytes.length :=
  (scanString_suffix found).length_le

def isKey (scanned : ScannedString) : Bool :=
  (scanned.after.dropWhile isAsciiWhitespace).head? = some colon

def noteString (keys : List (List UInt8)) (rest : List UInt8) (scanned : ScannedString) :
    Except Fault (List (List UInt8)) :=
  if isKey scanned then
    if scanned.escaped then .error .rejected
    else (sliceText rest (quote :: scanned.after) scanned.body).bind fun key =>
      if key ∈ keys then .error .rejected else .ok (key :: keys)
  else .ok keys

def checkNumber (fromStart fromIndex token : List UInt8) : Except Fault Unit :=
  (sliceText fromStart fromIndex token).bind fun token =>
    if numberRejected token then .error .rejected else .ok ()

def numberToken (byte : UInt8) (rest : List UInt8) : List UInt8 :=
  byte :: rest.takeWhile fun byte => !endsNumber byte

def afterNumber (rest : List UInt8) : List UInt8 := rest.dropWhile fun byte => !endsNumber byte

theorem afterNumber_shorter (rest : List UInt8) : (afterNumber rest).length ≤ rest.length :=
  (List.dropWhile_suffix _).length_le

def scan (keys : List (List UInt8)) : List UInt8 → Except Fault Unit
  | [] => .ok ()
  | byte :: rest =>
    if byte = quote then
      match found : scanString rest with
      | none => .error .rejected
      | some scanned =>
        have := scanString_shorter found
        (noteString keys rest scanned).bind fun keys => scan keys scanned.after
    else if startsNumber byte then
      have := afterNumber_shorter rest
      (checkNumber (byte :: rest) (afterNumber rest) (numberToken byte rest)).bind fun _ =>
        scan keys (afterNumber rest)
    else scan keys rest
  termination_by bytes => bytes.length
  decreasing_by all_goals simp only [List.length_cons]; omega

def validateJsonLexicalContract (bytes : List UInt8) : Except Fault Unit :=
  match fromUtf8 bytes with
  | none => .error .rejected
  | some text =>
    if text.head? = some (Char.ofNat 0xFEFF) || bytes.isEmpty then .error .rejected
    else scan [] bytes

section

def Settled (bytes : List UInt8) : Prop :=
  bytes.IsChain fun first second => first.toNat < 0x80 → isContinuation second = false

variable {byte : UInt8} {bytes rest : List UInt8}

theorem Settled.tail (settled : Settled (byte :: rest)) :
    Settled rest :=
  List.IsChain.tail settled

theorem Settled.suffix {after : List UInt8} (settled : Settled bytes) (suffix : after <:+ bytes) :
    Settled after :=
  List.IsChain.suffix settled suffix

theorem Settled.boundary (settled : Settled (byte :: rest)) (ascii : byte.toNat < 0x80) :
    isCharBoundary rest = true := by
  cases rest with
  | nil => rfl
  | cons next rest =>
    rw [isCharBoundary, (List.isChain_cons_cons.mp settled).1 ascii]
    rfl

theorem ascii_boundary (ascii : byte.toNat < 0x80) (rest : List UInt8) :
    isCharBoundary (byte :: rest) = true := by
  rw [isCharBoundary, Bool.not_eq_true']
  apply Bool.eq_false_iff.mpr
  intro inside
  have bounds := Artifact.isContinuation_iff.mp inside
  omega

theorem utf8EncodeChar_shape (letter : Char) : ∃ first more,
    String.utf8EncodeChar letter = first :: more ∧ isContinuation first = false ∧
      (more = [] ∨ ∀ byte ∈ first :: more, 0x80 ≤ byte.toNat) := by
  by_cases narrow : letter.toNat < 0x80
  · refine ⟨_, [], utf8_ascii narrow, ?_, Or.inl rfl⟩
    have ascii : (UInt8.ofNat letter.toNat).toNat < 0x80 := by
      rwa [toNat_ofNat_small (by omega)]
    have boundary := ascii_boundary ascii []
    rwa [isCharBoundary, Bool.not_eq_true'] at boundary
  · obtain ⟨first, more, bytes⟩ := List.exists_cons_of_ne_nil (utf8EncodeChar_ne_nil letter)
    refine ⟨first, more, bytes, ?_, Or.inr ?_⟩
    · have large := utf8_first_large (by omega) bytes
      apply Bool.eq_false_iff.mpr
      intro inside
      have bounds := Artifact.isContinuation_iff.mp inside
      omega
    · rw [← bytes]
      exact fun byte => utf8_byte_large (by omega)

theorem settled_append {lead : List UInt8} (wide : ∀ byte ∈ lead, 0x80 ≤ byte.toNat)
    (settled : Settled rest) : Settled (lead ++ rest) := by
  induction lead with
  | nil => exact settled
  | cons byte lead ih =>
    refine List.isChain_cons.mpr ⟨?_, ih fun other member => wide other (List.mem_cons_of_mem _ member)⟩
    intro next _ ascii
    exact absurd ascii (Nat.not_lt.mpr (wide byte List.mem_cons_self))

theorem textBytes_cons (letter : Char) (text : List Char) :
    textBytes (letter :: text) = String.utf8EncodeChar letter ++ textBytes text := List.flatMap_cons

theorem head_textBytes (text : List Char) (head : (textBytes text).head? = some byte) :
    isContinuation byte = false := by
  cases text with
  | nil => cases head
  | cons letter text =>
    obtain ⟨first, more, bytes, starts, -⟩ := utf8EncodeChar_shape letter
    rw [textBytes_cons, bytes] at head
    exact Option.some.inj head ▸ starts

theorem settled_textBytes (text : List Char) : Settled (textBytes text) := by
  induction text with
  | nil => exact List.isChain_nil
  | cons letter text ih =>
    obtain ⟨first, more, bytes, -, single | wide⟩ := utf8EncodeChar_shape letter
    · rw [textBytes_cons, bytes, single]
      exact List.isChain_cons.mpr ⟨fun next head _ => head_textBytes text head, ih⟩
    · rw [textBytes_cons, bytes]
      exact settled_append wide ih

theorem bind_panicked {α β : Type} {first : Except Fault α} {next : α → Except Fault β}
    (start : first ≠ .error .panicked) (later : ∀ value, next value ≠ .error .panicked) :
    first.bind next ≠ .error .panicked := by
  cases first with
  | error fault =>
    intro panicked
    exact start (congrArg Except.error (Except.error.inj panicked))
  | ok value => exact later value

theorem sliceText_of_boundaries {fromStart fromIndex slice : List UInt8}
    (start : isCharBoundary fromStart = true) (index : isCharBoundary fromIndex = true) :
    sliceText fromStart fromIndex slice = .ok slice := by
  rw [sliceText, start, index]
  rfl

theorem noteString_panicked {keys : List (List UInt8)} {scanned : ScannedString}
    (start : isCharBoundary rest = true) :
    noteString keys rest scanned ≠ .error .panicked := by
  rw [noteString, sliceText_of_boundaries start (ascii_boundary (by decide) _)]
  split_ifs with key escaped
  · exact Except.error.inj.mt Fault.noConfusion
  · refine bind_panicked (by simp) fun key => ?_
    split_ifs
    all_goals simp
  · simp

theorem endsNumber_ascii (ends : endsNumber byte = true) : byte.toNat < 0x80 := by
  simp only [endsNumber, Bool.or_eq_true, decide_eq_true_eq] at ends
  rcases ends with (((((rfl | rfl) | rfl) | rfl) | rfl) | rfl) | rfl
  all_goals decide

theorem startsNumber_ascii (starts : startsNumber byte = true) : byte.toNat < 0x80 := by
  simp only [startsNumber, isDigit, Bool.or_eq_true, Bool.and_eq_true, decide_eq_true_eq,
    UInt8.le_iff_toNat_le] at starts
  rcases starts with rfl | ⟨-, most⟩
  · decide
  · exact Nat.lt_of_le_of_lt most (by decide)

theorem afterNumber_boundary (rest : List UInt8) : isCharBoundary (afterNumber rest) = true := by
  cases after : afterNumber rest with
  | nil => rfl
  | cons byte more =>
    have stopped := List.head?_dropWhile_not (fun byte => !endsNumber byte) rest
    rw [afterNumber] at after
    rw [after] at stopped
    have ends : endsNumber byte = true := by simpa using stopped
    exact ascii_boundary (endsNumber_ascii ends) more

theorem checkNumber_panicked {fromStart fromIndex token : List UInt8}
    (start : isCharBoundary fromStart = true) (index : isCharBoundary fromIndex = true) :
    checkNumber fromStart fromIndex token ≠ .error .panicked := by
  rw [checkNumber, sliceText_of_boundaries start index]
  refine bind_panicked (by simp) fun token => ?_
  split_ifs
  all_goals simp

theorem scan_panicked {keys : List (List UInt8)} (settled : Settled bytes) :
    scan keys bytes ≠ .error .panicked := by
  fun_induction scan keys bytes with
  | case1 => simp
  | case2 => simp
  | case3 keys rest scanned found shorter ih =>
    have start := settled.boundary (by decide)
    have after : Settled scanned.after := (settled.tail.suffix (scanString_suffix found)).tail
    exact bind_panicked (noteString_panicked start) fun keys => ih keys after
  | case4 keys byte rest notQuote number shorter ih =>
    have start := ascii_boundary (startsNumber_ascii number) rest
    have after : Settled (afterNumber rest) := settled.tail.suffix (List.dropWhile_suffix _)
    exact bind_panicked (checkNumber_panicked start (afterNumber_boundary rest)) fun _ => ih after
  | case5 keys byte rest notQuote notNumber ih => exact ih settled.tail

theorem fromUtf8_settled {text : List Char} (read : fromUtf8 bytes = some text) :
    bytes = textBytes text := by
  rw [fromUtf8] at read
  split_ifs at read with valid
  rw [← Option.some.inj read, valid]

/-- No slice of the scan falls inside a character, whatever the bytes. -/
theorem validateJsonLexicalContract_panicked (bytes : List UInt8) :
    validateJsonLexicalContract bytes ≠ .error .panicked := by
  rw [validateJsonLexicalContract]
  cases read : fromUtf8 bytes with
  | none => simp
  | some text =>
    have settled : Settled bytes := fromUtf8_settled read ▸ settled_textBytes text
    simp only
    split_ifs
    · simp
    · exact scan_panicked settled

end

section

theorem scanString_quote (rest : List UInt8) : scanString (quote :: rest) = some ⟨[], false, rest⟩ := by
  cases rest with
  | nil => rfl
  | cons next rest =>
    rw [scanString, if_neg (by decide), if_pos rfl]

theorem scanString_backslash (next : UInt8) (rest : List UInt8) :
    scanString (backslash :: next :: rest) = (scanString rest).map (.add [backslash, next] true) := by
  rw [scanString, if_pos rfl]

variable {byte : UInt8} {rest : List UInt8}

theorem scanString_other (noQuote : byte ≠ quote) (noBackslash : byte ≠ backslash)
    (rest : List UInt8) :
    scanString (byte :: rest) = (scanString rest).map (.add [byte] false) := by
  cases rest with
  | nil =>
    have unread : scanString [byte] = none := if_neg noQuote
    exact unread
  | cons next rest =>
    rw [scanString, if_neg noBackslash, if_neg noQuote]

theorem scanString_plain {lead : List UInt8} (plain : ∀ byte ∈ lead, byte ≠ quote ∧ byte ≠ backslash)
    (rest : List UInt8) : scanString (lead ++ rest) = (scanString rest).map (.add lead false) := by
  induction lead with
  | nil =>
    cases scanned : scanString rest with
    | none => rw [List.nil_append, scanned, Option.map_none]
    | some scanned => rw [List.nil_append, ‹scanString rest = _›, Option.map_some]; rfl
  | cons byte lead ih =>
    obtain ⟨noQuote, noBackslash⟩ := plain byte List.mem_cons_self
    rw [List.cons_append, scanString_other noQuote noBackslash,
      ih fun other member => plain other (List.mem_cons_of_mem _ member), Option.map_map]
    rfl

theorem scanString_escapeChar (letter : Char) (rest : List UInt8) :
    scanString (escapeChar letter ++ rest) =
      (scanString rest).map (.add (escapeChar letter) (escapeCode letter).isSome) := by
  cases escaped : escapeCode letter with
  | none =>
    rw [escapeChar_plain escaped]
    exact scanString_plain (fun byte => plain_byte escaped) rest
  | some code =>
    obtain ⟨next, -, shape, plain⟩ :=
      specials_code letter (mem_specials (by rw [escaped]; exact Option.some_ne_none code))
    rw [shape, List.cons_append, List.cons_append, scanString_backslash, scanString_plain plain,
      Option.map_map]
    rfl

theorem scanString_escapeText (text : List Char) (rest : List UInt8) :
    scanString (escapeText text ++ quote :: rest) =
      some ⟨escapeText text, text.any fun letter => (escapeCode letter).isSome, rest⟩ := by
  induction text with
  | nil => exact scanString_quote rest
  | cons letter text ih =>
    rw [escapeText, List.flatMap_cons, List.append_assoc, scanString_escapeChar]
    rw [escapeText] at ih
    rw [ih]
    rfl

theorem escapeText_boundary (text : List Char) (rest : List UInt8) :
    isCharBoundary (escapeText text ++ quote :: rest) = true := by
  cases text with
  | nil => exact ascii_boundary (by decide) rest
  | cons letter text =>
    rw [escapeText, List.flatMap_cons, List.append_assoc]
    cases escaped : escapeCode letter with
    | none =>
      obtain ⟨first, more, bytes, starts, -⟩ := utf8EncodeChar_shape letter
      rw [escapeChar_plain escaped, bytes, List.cons_append, isCharBoundary, starts]
      rfl
    | some code =>
      rw [escapeChar, escaped]
      exact ascii_boundary (by decide) _

theorem not_escaped {text : String} (unescaped : Unescaped text) :
    (text.toList.any fun letter => (escapeCode letter).isSome) = false := by
  rw [List.any_eq_false]
  intro letter member
  rw [unescaped letter member]
  decide

variable {keys : List (List UInt8)}

theorem scan_string {scanned : ScannedString}
    (found : scanString rest = some scanned) : scan keys (quote :: rest) =
      (noteString keys rest scanned).bind fun keys => scan keys scanned.after := by
  rw [scan, if_pos rfl]
  split
  · rename_i missing
    rw [found] at missing
    cases missing
  · rename_i other same
    rw [found] at same
    cases same
    rfl

theorem writeText_append (text : String) (rest : List UInt8) :
    writeText text ++ rest = quote :: (escapeText text.toList ++ quote :: rest) := by
  rw [writeText, List.cons_append, List.cons_append, List.append_assoc]
  rfl

theorem scan_key {key : String} (unescaped : Unescaped key) (fresh : escapeText key.toList ∉ keys) :
    scan keys (writeText key ++ colon :: rest) =
      scan (escapeText key.toList :: keys) (colon :: rest) := by
  rw [writeText_append, scan_string (scanString_escapeText _ _), noteString,
    if_pos (show isKey _ = true from rfl), not_escaped unescaped, if_neg Bool.false_ne_true,
    sliceText_of_boundaries (escapeText_boundary _ _) (ascii_boundary (by decide) _)]
  rw [Except.bind, if_neg fresh]
  rfl

theorem scan_text {text : String} (noColon : byte ≠ colon)
    (noSpace : isAsciiWhitespace byte = false) :
    scan keys (writeText text ++ byte :: rest) = scan keys (byte :: rest) := by
  have noKey : isKey ⟨escapeText text.toList,
      text.toList.any fun letter => (escapeCode letter).isSome, byte :: rest⟩ = false := by
    rw [isKey, List.dropWhile_cons_of_neg (by rw [noSpace]; exact Bool.false_ne_true)]
    exact decide_eq_false fun same => noColon (Option.some.inj same)
  rw [writeText_append, scan_string (scanString_escapeText _ _), noteString, noKey]
  rfl

theorem head_toDigits {number : Nat} (positive : 0 < number) :
    (Nat.toDigits 10 number).head? ≠ some '0' := by
  induction number using Nat.strongRecOn with
  | ind number ih =>
    by_cases small : number < 10
    · rw [Nat.toDigits_of_lt_base small]
      intro zero
      have digits : ∀ digit < 10, 0 < digit → Nat.digitChar digit ≠ '0' := by decide
      exact digits number small positive (Option.some.inj zero)
    · have least : 10 ≤ number := Nat.le_of_not_lt small
      rw [Nat.toDigits_of_base_le (by decide) least,
        List.head?_append_of_ne_nil _ Nat.toDigits_ne_nil]
      exact ih (number / 10) (by omega) (by omega)

theorem head_decimal_zero {number : Nat} (zero : (decimal number).head? = some 0x30) : number = 0 := by
  by_contra positive
  rw [decimal, List.head?_map] at zero
  obtain ⟨digit, first, code⟩ := Option.map_eq_some_iff.mp zero
  have listed : digit ∈ Nat.toDigits 10 number := List.mem_of_head? first
  have value := (digit_byte (Nat.isDigit_of_mem_toDigits (by decide) (by decide) listed)).1
  have same : digit = '0' := by
    apply Char.toNat_inj.mp
    rw [← value, code]
    rfl
  exact head_toDigits (Nat.pos_of_ne_zero positive) (same ▸ first)

theorem no_leading_zero (number : Nat) :
    (decide (1 < (decimal number).length) && decide ((decimal number).head? = some 0x30)) = false := by
  rw [Bool.and_eq_false_iff, decide_eq_false_iff_not, decide_eq_false_iff_not]
  by_cases zero : (decimal number).head? = some 0x30
  · rw [head_decimal_zero zero]
    exact Or.inl (by decide)
  · exact Or.inr zero

theorem numberRejected_decimal (number : Nat) :
    numberRejected (decimal number) = decide (maxSafeInteger < number) := by
  have noMinus : (decimal number).head? ≠ some 0x2D := by
    intro minus
    have digit := decimal_digits number _ (List.mem_of_head? minus)
    exact absurd digit (by decide)
  have allDigits : (decimal number).all isDigit = true :=
    List.all_eq_true.mpr (decimal_digits number)
  rw [numberRejected, decide_eq_false noMinus, allDigits, no_leading_zero, digitsValue_decimal]
  rfl

theorem isDigit_not_ends (digit : isDigit byte = true) : endsNumber byte = false := by
  rw [isDigit, Bool.and_eq_true, decide_eq_true_eq, decide_eq_true_eq] at digit
  apply Bool.eq_false_iff.mpr
  intro ends
  simp only [endsNumber, Bool.or_eq_true, decide_eq_true_eq] at ends
  rcases ends with (((((rfl | rfl) | rfl) | rfl) | rfl) | rfl) | rfl
  all_goals exact absurd digit (by decide)

theorem scan_number {number : Nat} (ends : endsNumber byte = true) :
    scan keys (decimal number ++ byte :: rest) =
      if number ≤ maxSafeInteger then scan keys (byte :: rest) else .error .rejected := by
  obtain ⟨first, more, bytes⟩ := List.exists_cons_of_ne_nil (decimal_ne_nil number)
  have digit : isDigit first = true := decimal_digits number first (bytes ▸ List.mem_cons_self)
  have noQuote : first ≠ quote := by
    rintro rfl
    exact absurd digit (by decide)
  have starts : startsNumber first = true := by rw [startsNumber, digit, Bool.or_true]
  have stops : ∀ next ∈ (byte :: rest).head?, (!endsNumber next) = false := by
    rintro next ⟨⟩
    rw [ends]
    rfl
  have kept : ∀ next, isDigit next = true → (!endsNumber next) = true := by
    intro next digit
    rw [isDigit_not_ends digit]
    rfl
  obtain ⟨taken, left⟩ := @takeWhile_decimal (fun next => !endsNumber next) number _ kept stops
  have keptFirst := kept first digit
  rw [bytes, List.cons_append, List.takeWhile_cons, if_pos keptFirst] at taken
  rw [bytes, List.cons_append, List.dropWhile_cons, if_pos keptFirst] at left
  have token : numberToken first (more ++ byte :: rest) = decimal number := taken.trans bytes.symm
  have after : afterNumber (more ++ byte :: rest) = byte :: rest := left
  rw [bytes, List.cons_append, scan, if_neg noQuote, if_pos starts, token, after, checkNumber,
    sliceText_of_boundaries (ascii_boundary (startsNumber_ascii starts) _)
      (ascii_boundary (endsNumber_ascii ends) _)]
  simp only [Except.bind, numberRejected_decimal]
  by_cases small : number ≤ maxSafeInteger
  · rw [if_pos small, if_neg (by simpa using small)]
  · rw [if_neg small, if_pos (by simpa using small)]

theorem scan_mark (noQuote : byte ≠ quote) (noNumber : startsNumber byte = false) :
    scan keys (byte :: rest) = scan keys rest := by
  rw [scan, if_neg noQuote, noNumber]
  rfl

def Scalar.Safe : Scalar → Prop
  | .text _ => True
  | .number value => value ≤ maxSafeInteger

instance decidableSafe (value : Scalar) : Decidable (Scalar.Safe value) :=
  match value with
  | .text _ => inferInstanceAs (Decidable True)
  | .number value => inferInstanceAs (Decidable (value ≤ maxSafeInteger))

theorem scan_scalar {value : Scalar} (mark : byte = comma ∨ byte = closeBrace) :
    scan keys (writeScalar value ++ byte :: rest) = .ok () ↔
      Scalar.Safe value ∧ scan keys rest = .ok () := by
  have passed : scan keys (byte :: rest) = scan keys rest := by
    rcases mark with rfl | rfl
    all_goals exact scan_mark (by decide) (by decide)
  cases value with
  | text value =>
    have written : scan keys (writeText value ++ byte :: rest) = scan keys (byte :: rest) := by
      rcases mark with rfl | rfl
      all_goals exact scan_text (by decide) (by decide)
    rw [writeScalar, written, passed]
    exact (and_iff_right trivial).symm
  | number value =>
    have ends : endsNumber byte = true := by
      rcases mark with rfl | rfl
      all_goals decide
    rw [writeScalar, scan_number ends, passed, Scalar.Safe]
    split_ifs with small
    · exact (and_iff_right small).symm
    · constructor
      · intro same
        cases same
      · intro both
        exact absurd both.1 small

theorem scan_field {field : String × Scalar}
    (unescaped : Unescaped field.1) (fresh : escapeText field.1.toList ∉ keys)
    (mark : byte = comma ∨ byte = closeBrace) :
    scan keys (writeField field ++ byte :: rest) = .ok () ↔
      Scalar.Safe field.2 ∧ scan (escapeText field.1.toList :: keys) rest = .ok () := by
  rw [writeField, List.append_assoc, List.cons_append, scan_key unescaped fresh,
    scan_mark (by decide) (by decide), scan_scalar mark]

theorem scan_fields {fields : List (String × Scalar)}
    (unescaped : ∀ field ∈ fields, Unescaped field.1)
    (distinct : (fields.map fun field => escapeText field.1.toList).Nodup)
    (fresh : ∀ field ∈ fields, escapeText field.1.toList ∉ keys) :
    scan keys (writeFields fields) = .ok () ↔ ∀ field ∈ fields, Scalar.Safe field.2 := by
  fun_induction writeFields fields generalizing keys with
  | case1 =>
    rw [scan_mark (by decide) (by decide), scan]
    simp
  | case2 field =>
    rw [scan_field (unescaped field List.mem_cons_self) (fresh field List.mem_cons_self)
      (Or.inr rfl), scan]
    simp
  | case3 field next rest ih =>
    have others : ∀ other ∈ next :: rest,
        escapeText other.1.toList ∉ escapeText field.1.toList :: keys := by
      intro other member
      rw [List.mem_cons, not_or]
      constructor
      · intro same
        exact (List.nodup_cons.mp distinct).1 (List.mem_map.mpr ⟨other, member, same⟩)
      · exact fresh other (List.mem_cons_of_mem _ member)
    rw [scan_field (unescaped field List.mem_cons_self) (fresh field List.mem_cons_self)
      (Or.inl rfl), ih (fun other member => unescaped other (List.mem_cons_of_mem _ member))
        (List.nodup_cons.mp distinct).2 others, List.forall_mem_cons (a := field)]

theorem scan_writeObject {fields : List (String × Scalar)}
    (unescaped : ∀ field ∈ fields, Unescaped field.1)
    (distinct : (fields.map fun field => escapeText field.1.toList).Nodup) :
    scan [] (writeObject fields) = .ok () ↔ ∀ field ∈ fields, Scalar.Safe field.2 := by
  rw [writeObject, scan_mark (by decide) (by decide),
    scan_fields unescaped distinct fun _ _ => List.not_mem_nil]

end

end EmuChef.Updates
