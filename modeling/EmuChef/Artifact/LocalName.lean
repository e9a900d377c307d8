import EmuChef.Lib.NamePath
import EmuChef.Lib.Split

/-! The local names that `artifact_resolver` derives from artifact URLs. -/

namespace EmuChef.Artifact

open Split (splitOnce)

def textBytes (text : List Char) : List UInt8 := text.flatMap String.utf8EncodeChar

def replacement : Char := '\uFFFD'

def isContinuation (byte : UInt8) : Bool := 0x80 ≤ byte && byte ≤ 0xBF

def secondAllowed (first second : UInt8) : Bool :=
  if first = 0xE0 then 0xA0 ≤ second && second ≤ 0xBF
  else if first = 0xED then 0x80 ≤ second && second ≤ 0x9F
  else if first = 0xF0 then 0x90 ≤ second && second ≤ 0xBF
  else if first = 0xF4 then 0x80 ≤ second && second ≤ 0x8F
  else isContinuation second

def characterWidth (first : UInt8) : Nat :=
  if first < 0x80 then 1
  else if 0xC2 ≤ first && first ≤ 0xDF then 2
  else if 0xE0 ≤ first && first ≤ 0xEF then 3
  else if 0xF0 ≤ first && first ≤ 0xF4 then 4
  else 0

def codePoint (first : Nat) (following : List UInt8) : Char :=
  Char.ofNat (following.foldl (fun value byte => 64 * value + byte.toNat % 64) first)

/-- The character at the start of the bytes, and the bytes after it. A replacement stands for the
longest start of a character that is not completed. -/
def lossyChar (first : UInt8) (rest : List UInt8) : Char × List UInt8 :=
  match characterWidth first, rest with
  | 1, rest => (Char.ofNat first.toNat, rest)
  | 2, second :: rest =>
      if isContinuation second then (codePoint (first.toNat % 32) [second], rest)
      else (replacement, second :: rest)
  | 3, second :: rest =>
      if secondAllowed first second then
        match rest with
        | third :: rest =>
            if isContinuation third then (codePoint (first.toNat % 16) [second, third], rest)
            else (replacement, third :: rest)
        | [] => (replacement, [])
      else (replacement, second :: rest)
  | 4, second :: rest =>
      if secondAllowed first second then
        match rest with
        | third :: rest =>
            if isContinuation third then
              match rest with
              | fourth :: rest =>
                  if isContinuation fourth then
                    (codePoint (first.toNat % 8) [second, third, fourth], rest)
                  else (replacement, fourth :: rest)
              | [] => (replacement, [])
            else (replacement, third :: rest)
        | [] => (replacement, [])
      else (replacement, second :: rest)
  | _, rest => (replacement, rest)

def lossyText : Nat → List UInt8 → List Char
  | 0, _ => []
  | _, [] => []
  | fuel + 1, first :: rest =>
      let (letter, rest) := lossyChar first rest
      letter :: lossyText fuel rest

def fromUtf8Lossy (bytes : List UInt8) : List Char := lossyText bytes.length bytes

section

def hexDigit (letter : Char) : Option Nat :=
  if '0' ≤ letter ∧ letter ≤ '9' then some (letter.toNat - '0'.toNat)
  else if 'a' ≤ letter ∧ letter ≤ 'f' then some (letter.toNat - 'a'.toNat + 10)
  else if 'A' ≤ letter ∧ letter ≤ 'F' then some (letter.toNat - 'A'.toNat + 10)
  else none

def hexByte (first second : Char) : Option UInt8 :=
  if first = '+' then (hexDigit second).map UInt8.ofNat
  else (hexDigit first).bind fun high => (hexDigit second).map fun low => UInt8.ofNat (16 * high + low)

/-- The bytes of a percent-encoded text. The source takes two bytes after a percent sign and panics
where they end inside a character, which is `none` here. -/
def percentDecodeBytes : List Char → Option (List UInt8)
  | [] => some []
  | '%' :: first :: second :: rest =>
      if first.utf8Size = 1 then
        if second.utf8Size = 1 then
          match hexByte first second with
          | some byte => (percentDecodeBytes rest).map (byte :: ·)
          | none => (percentDecodeBytes (first :: second :: rest)).map (0x25 :: ·)
        else none
      else if first.utf8Size = 2 then
        (percentDecodeBytes (first :: second :: rest)).map (0x25 :: ·)
      else none
  | ['%', last] => if last.utf8Size ≤ 2 then some (0x25 :: String.utf8EncodeChar last) else none
  | letter :: rest => (percentDecodeBytes rest).map (String.utf8EncodeChar letter ++ ·)

def percentDecode (text : List Char) : Option String :=
  (percentDecodeBytes text).map fun bytes => String.ofList (fromUtf8Lossy bytes)

def urlPath (url : String) : List Char :=
  let afterScheme := ((splitOnce "://".toList url.toList).map Prod.snd).getD url.toList
  let pathWithQuery :=
    if afterScheme.head? = some '/' then afterScheme else afterScheme.dropWhile (· ≠ '/')
  pathWithQuery.takeWhile fun letter => letter ≠ '?' ∧ letter ≠ '#'

def artifactFilename (artifactId url : String) : Option String :=
  match ((urlPath url).splitOn '/').reverse.find? (· ≠ []) with
  | some part => percentDecode part
  | none => some (String.ofList ((artifactId.toList.splitOn '/').getLastD artifactId.toList) ++ ".bin")

def hexLetter (digit : Nat) : Char := Nat.digitChar digit

def hexDigest (bytes : List UInt8) : String :=
  String.ofList (bytes.flatMap fun byte =>
    [hexLetter (byte.toNat / 16), hexLetter (byte.toNat % 16)])

-- The digest of `Sha256`.
variable (sha256 : List UInt8 → List UInt8)

def urlDigest (text : String) : String := hexDigest (sha256 (textBytes text.toList))

def artifactLocalFilename (artifactId url cache : String) : Option String :=
  (artifactFilename artifactId url).map fun filename =>
    urlDigest sha256 (if cache = "default" then url else artifactId ++ url) ++ "-" ++ filename

end

end EmuChef.Artifact
