import EmuChef.App.Handles
import EmuChef.Executor.PermissionStep
import EmuChef.Lib.CaseMapping

/-! How the app takes a device serial and absolute paths out of the texts of a report. -/

namespace EmuChef.App

open EmuChef.Executor (isWhitespace)
open SessionHandles (replaceText replaceLetters)

section

def redactExactSerial (exactSerial text : String) : String :=
  if exactSerial = "" then text else replaceText text exactSerial "[device]"

def Hides (exactSerial text : String) : Prop :=
  exactSerial ≠ "" ∧ exactSerial.toList <:+: text.toList

variable {pattern replacement text : List Char}

theorem infix_cons {letter : Char} (found : pattern <:+: letter :: text)
    (elsewhere : ¬pattern <+: letter :: text) : pattern <:+: text :=
  (List.infix_cons_iff.mp found).resolve_left elsewhere

theorem stripLead_isSome :
    (Split.stripLead pattern text).isSome = true ↔ pattern <+: text := by
  rw [Option.isSome_iff_exists]
  constructor
  · rintro ⟨rest, stripped⟩
    exact ⟨rest, (Split.stripLead_eq_some.mp stripped).symm⟩
  · rintro ⟨rest, rfl⟩
    exact ⟨rest, Split.stripLead_append pattern rest⟩

theorem replaceLetters_absent (absent : ¬pattern <:+: text) :
    replaceLetters pattern replacement 0 text = text := by
  induction text with
  | nil => rfl
  | cons letter rest ih =>
    have elsewhere : ¬(Split.stripLead pattern (letter :: rest)).isSome = true := fun stripped =>
      absent (stripLead_isSome.mp stripped).isInfix
    rw [replaceLetters, if_neg elsewhere, ih fun found =>
      absent (found.trans (List.suffix_cons letter rest).isInfix)]

theorem mem_replaceLetters (nonempty : pattern ≠ []) (found : pattern <:+: text) {mark : Char}
    (marks : mark ∈ replacement) : mark ∈ replaceLetters pattern replacement 0 text := by
  induction text with
  | nil => exact absurd (List.infix_nil.mp found) nonempty
  | cons letter rest ih =>
    rw [replaceLetters]
    split
    · exact List.mem_append_left _ marks
    · next elsewhere =>
      refine List.mem_cons_of_mem _ (ih (infix_cons found fun lead => ?_))
      exact elsewhere (stripLead_isSome.mpr lead)

variable {exactSerial word : String}

theorem redactExactSerial_absent (shown : ¬Hides exactSerial word) :
    redactExactSerial exactSerial word = word := by
  unfold redactExactSerial
  split
  · rfl
  · next nonempty =>
    have absent : ¬exactSerial.toList <:+: word.toList := fun found => shown ⟨nonempty, found⟩
    rw [replaceText, if_neg nonempty, replaceLetters_absent absent, String.ofList_toList]

theorem redactExactSerial_bracket (hidden : Hides exactSerial word) :
    '[' ∈ (redactExactSerial exactSerial word).toList := by
  have letters : exactSerial.toList ≠ [] := fun none => hidden.1 (by simpa using none)
  rw [redactExactSerial, if_neg hidden.1, replaceText, if_neg hidden.1, String.toList_ofList]
  exact mem_replaceLetters letters hidden.2 (by decide +kernel)

end

def endsPath (activeQuote : Option Char) (letter : Char) : Bool :=
  (match activeQuote with
    | none => isWhitespace letter || letter = '"' || letter = '\''
    | some quote => letter = quote) ||
  letter = ',' || letter = ';' || letter = ')' || letter = ']' || letter = '\x7d'

def nextQuote (activeQuote : Option Char) (previous : Option Char) (letter : Char) : Option Char :=
  if (letter = '"' || letter = '\'') && previous ≠ some '\\' then
    if activeQuote = some letter then none else activeQuote.or (some letter)
  else activeQuote

def startsToken (letter : Char) : Bool :=
  isWhitespace letter || letter = '"' || letter = '\'' || letter = '(' || letter = '='

def startsPath (activeQuote : Option Char) (before : List Char) : Bool :=
  let token := before.takeWhile fun letter => !startsToken letter
  let insideUrl : Bool := ['/', '/', ':'] <:+: token
  !insideUrl &&
    match before with
    | [] => true
    | previous :: _ =>
      previous ≠ ':' && previous ≠ '/' &&
        (activeQuote.isSome || isWhitespace previous || previous = '(' || previous = '=')

def redactPathsFrom (inPath : Bool) (activeQuote : Option Char) (before : List Char) :
    List Char → List Char
  | [] => []
  | letter :: rest =>
    if inPath && !endsPath activeQuote letter then
      redactPathsFrom true activeQuote (letter :: before) rest
    else if letter ≠ '/' then
      letter :: redactPathsFrom false (nextQuote activeQuote before.head? letter) (letter :: before) rest
    else if startsPath activeQuote before then
      "[path]".toList ++ redactPathsFrom true activeQuote (letter :: before) rest
    else '/' :: redactPathsFrom false activeQuote (letter :: before) rest

def redactAbsolutePaths (value : String) : String :=
  String.ofList (redactPathsFrom false none [] value.toList)

section

variable (tables : CaseTables)

def isDrivePath : List Char → Bool
  | drive :: colon :: slash :: _ => drive.isAlpha && colon = ':' && (slash = '\\' || slash = '/')
  | _ => false

def containsWindowsAbsolutePath (value : List Char) : Bool :=
  ['\\', '\\'] <:+: value || value.tails.any isDrivePath

def serialFragments (serial : List Char) : List (List Char) :=
  serial.tails.flatMap fun tail => tail.inits.filter fun fragment => 4 ≤ fragment.length

def safeRealText (value exactSerial : String) : Option String :=
  let lower := tables.lowercase value.toList
  let serial := tables.lowercase exactSerial.toList
  if "://".toList <:+: lower ∨ containsWindowsAbsolutePath value.toList then none
  else if serial ≠ [] ∧ serial <:+: lower then none
  else if (serialFragments serial).any fun fragment => fragment <:+: lower then none
  else some (redactAbsolutePaths value)

def sanitizedText (exactSerial value : String) : String :=
  (safeRealText tables value exactSerial).getD "[redacted]"

end

end EmuChef.App
