import EmuChef.Authored.Document
import EmuChef.Lib.SlashPath

/-! The identifiers of authored documents and the paths of App targets. -/

namespace EmuChef.Authored

def isIdentifierLetter (letter : Char) : Bool := letter.isLower || letter.isDigit

def isIdentifierSeparator (letter : Char) : Bool := letter = '.' || letter = '_' || letter = '-'

def identifierFrom (ended : Bool) : List Char → Bool
  | [] => ended
  | letter :: rest =>
      if isIdentifierLetter letter then identifierFrom true rest
      else if isIdentifierSeparator letter then ended && identifierFrom false rest
      else false

def isValidIdentifier (value : String) : Bool := identifierFrom false value.toList

example : isValidIdentifier "retro-arch.aarch64" = true := by decide

def isControl (letter : Char) : Bool :=
  letter.toNat < 0x20 || (0x7f ≤ letter.toNat && letter.toNat < 0xa0)

def isTargetPathLetter (letter : Char) : Bool :=
  !isControl letter && letter ∉ ['\\', '~', '$', '\x7b', '\x7d']

/-- A literal path in the form that its location requires, none of whose segments is empty,
`.` or `..`. -/
def isValidTargetPath (location : AppTargetLocation) (path : String) : Bool :=
  let letters := path.toList
  let absolute := letters.head? = some '/'
  let segments := if absolute then letters.tail else letters
  !letters.isEmpty && letters.all isTargetPathLetter &&
    (absolute = (location = .absoluteDevicePath : Bool)) &&
    (segments.splitOn '/').all fun segment =>
      segment ≠ [] && segment ≠ ['.'] && segment ≠ ['.', '.']

example : isValidTargetPath .absoluteDevicePath "/opt/../config.ini" = false := by decide

end EmuChef.Authored
