import EmuChef.Helper.FileSystem
import EmuChef.Lib.Split
import EmuChef.Lib.TextPath

/-! The on-device helper `copy_commit_helper.c` as a program over its system calls. -/

namespace EmuChef.Helper

open Split (splitOnce stripLead)
open Program (check)

/-- How the helper ends besides with success. `unfinished` stands for a copy that goes on. -/
inductive HelperExit where
  | failed (action : String)
  | usage
  | unfinished
  deriving DecidableEq

abbrev HelperProgram := Program HelperOp HelperOp.Response
abbrev HelperAttempt := Program.Attempt HelperOp HelperOp.Response HelperExit

structure HelperArguments where
  root : String
  binding : String
  stageRoot : String
  action : String
  relative : String
  expected : String
  sourceSha256 : Option String
  deriving DecidableEq

def issue (operation : HelperOp) : HelperProgram operation.Response := Program.request operation

def orFail (operation : HelperOp) (action : String) : HelperAttempt operation.Value :=
  ExceptT.mk do
    match ← issue operation with
    | .ok value => pure (.ok value)
    | .error _ => pure (.error (.failed action))

def demand (holds : Prop) [Decidable holds] (action : String) : HelperAttempt Unit :=
  check (if holds then .ok () else .error (.failed action))

def openDirectoryAt (directory : Handle) (name action : String) : HelperAttempt Handle :=
  orFail (.openDirectoryAt directory name) action

def duplicate (directory : Handle) : HelperAttempt Handle :=
  orFail (.duplicate directory) "duplicate selected-root descriptor"

def syncDirectory (directory : Handle) (action : String) : HelperAttempt Unit := do
  let readable : Handle ← orFail (.openSelf directory) "open selected-root directory for flush"
  orFail (.flush readable) action

def safeComponent (name : String) : Bool := name ≠ "" && name ≠ "." && name ≠ ".."

def hasEmptyName (path : String) : Bool := (splitOnce ['/', '/'] path.toList).isSome

def pathNames (path : String) : List String := (TextPath.parts path).map String.ofList

def splitRelative (path : String) : Except HelperExit (List String) :=
  if path = "" ∨ path.toList.head? = some '/' ∨ path.toList.getLast? = some '/' ∨
      hasEmptyName path = true ∨ (pathNames path).any (fun name => !safeComponent name) = true then
    .error (.failed "relative path validation")
  else .ok (pathNames path)

def absoluteNames (path : String) : List String := (pathNames path).filter fun name => name ≠ ""

def openAbsoluteName (directory : Handle) (name : String) : HelperAttempt Handle := do
  demand (safeComponent name) "absolute path validation"
  openDirectoryAt directory name "open no-follow directory component"

def openAbsoluteDirectory (path : String) : HelperAttempt Handle := do
  demand (path.toList.head? = some '/' ∧ path ≠ "/" ∧ hasEmptyName path = false)
    "absolute directory validation"
  let root : Handle ← orFail .openRoot "open filesystem root"
  (absoluteNames path).foldlM openAbsoluteName root

/-- Open a directory below another one. The source can also create it, which no caller asks for. -/
def openRelativeDirectory (root : Handle) (names : List String) : HelperAttempt Handle := do
  let current ← duplicate root
  names.foldlM (fun directory name =>
    openDirectoryAt directory name "open no-follow selected-root directory") current

def openRelativeParent (root : Handle) (names : List String) : HelperAttempt Handle :=
  if names.length = 1 then duplicate root else openRelativeDirectory root names.dropLast

def requireLinkTarget (parent : Handle) (name expected : String) : HelperAttempt Unit := do
  let target : String ← orFail (.readLinkAt parent name) "read reviewed shared-storage alias"
  demand (target.utf8ByteSize < 255) "reviewed shared-storage alias validation"
  demand (target = expected) "reviewed shared-storage alias changed"

def verifySharedStorageAliasChain : HelperAttempt Unit := do
  let root : Handle ← orFail .openRoot "open filesystem root for alias validation"
  requireLinkTarget root "sdcard" "/storage/self/primary"
  let self ← openAbsoluteDirectory "/storage/self"
  requireLinkTarget self "primary" "/storage/emulated/0"
  let _ ← openAbsoluteDirectory "/storage/emulated/0"

def bindingPath (binding : String) : Option String :=
  (splitOnce ['|'] binding.toList).map fun parts => String.ofList parts.1

def verifyBindingCanonicalPath (binding expected : String) : HelperAttempt Unit := do
  demand (bindingPath binding).isSome "reviewed destination binding validation"
  demand (bindingPath binding = some expected) "reviewed canonical destination changed"

def canonicalBase : String := "/storage/emulated/0"

def suffixAfter (lead path : String) : Option String :=
  (stripLead lead.toList path.toList).map String.ofList

def aliasSuffix (path : String) : Option String :=
  ((suffixAfter "/sdcard/" path).or (suffixAfter "/storage/self/primary/" path)).or
    (if path = "/sdcard" ∨ path = "/storage/self/primary" then some "" else none)

def canonicalPath (suffix : String) : String :=
  if suffix = "" then canonicalBase else canonicalBase ++ "/" ++ suffix

def isSharedPath (path : String) : Bool :=
  path = canonicalBase || (suffixAfter "/storage/emulated/0/" path).isSome

def openSharedRoot (suffix : String) : HelperAttempt Handle := do
  let sharedRoot ← openAbsoluteDirectory canonicalBase
  if suffix = "" then pure sharedRoot
  else do
    let names ← check (splitRelative suffix)
    openRelativeDirectory sharedRoot names

def openReviewedSelectedRoot (path binding : String) : HelperAttempt Handle :=
  match aliasSuffix path with
  | some suffix => do
      verifySharedStorageAliasChain
      demand ((canonicalPath suffix).utf8ByteSize < 4096)
        "reviewed canonical destination validation"
      verifyBindingCanonicalPath binding (canonicalPath suffix)
      openSharedRoot suffix
  | none => do
      verifyBindingCanonicalPath binding path
      if isSharedPath path then verifySharedStorageAliasChain
      openAbsoluteDirectory path

def isSpace (letter : Char) : Bool :=
  letter = ' ' || ('\t' ≤ letter && letter ≤ '\r')

def isDigit (letter : Char) : Bool := '0' ≤ letter && letter ≤ '9'

def digitsValue (digits : List Char) : Nat :=
  digits.foldl (fun value digit => 10 * value + (digit.toNat - '0'.toNat)) 0

def signedDigits (text : List Char) : Bool × List Char :=
  match text with
  | '-' :: digits => (true, digits)
  | '+' :: digits => (false, digits)
  | digits => (false, digits)

/-- A whole text read as an unsigned number of 64 bits: a sign negates it, and a number that is too
large counts as the largest one. -/
def strtoumax (text : List Char) : Option Nat :=
  let (negated, digits) := signedDigits (text.dropWhile isSpace)
  let value := digitsValue digits
  if digits = [] ∨ digits.all isDigit = false then none
  else if 2 ^ 64 ≤ value then some (2 ^ 64 - 1)
  else if negated then some ((2 ^ 64 - value) % 2 ^ 64)
  else some value

def parseIdentity (device inode : List Char) : Option Identity :=
  if device = [] ∨ 32 ≤ (String.ofList device).utf8ByteSize then none
  else (strtoumax device).bind fun device => (strtoumax inode).map fun inode => ⟨device, inode⟩

def selectedIdentity (binding : String) : Option Identity :=
  (splitOnce "|selected:".toList binding.toList).bind fun selected =>
    (splitOnce [':'] selected.2).bind fun parts => parseIdentity parts.1 parts.2

def verifySelectedIdentity (root : Handle) (binding : String) : HelperAttempt Unit := do
  let expected ← check ((selectedIdentity binding).elim
    (.error (.failed "reviewed destination identity parsing")) .ok)
  let actual : Stat ← orFail (.statHandle root) "inspect selected-root descriptor"
  demand (actual.identity = expected) "selected-root identity changed after review"

def staleAction : String := "reviewed destination entry changed after review"

def entryIdentity (text : List Char) : Option Identity :=
  (splitOnce [':'] text).bind fun parts =>
    if ':' ∈ parts.2 then none else parseIdentity parts.1 parts.2

def verifyEntryIdentity (status : Stat) (text : List Char) : HelperAttempt Unit := do
  let expected ← check ((entryIdentity text).elim
    (.error (.failed "reviewed destination entry identity parsing")) .ok)
  demand (status.identity = expected) staleAction

section

variable (parent : Handle) (name : String)

def digestOf (file : Handle) : HelperAttempt String :=
  orFail (.digest file) "compute reviewed-entry digest"

def verifyAbsent : HelperAttempt Unit :=
  ExceptT.mk do
    match ← issue (.statAt parent name) with
    | .ok _ => pure (.error (.failed staleAction))
    | .error .noEntry => pure (.ok ())
    | .error _ => pure (.error (.failed "inspect reviewed destination entry"))

def verifyFileContent (status : Stat) (digest : String) : HelperAttempt Unit := do
  let file : Handle ← orFail (.openFileAt parent name) "open reviewed destination file"
  let opened : Stat ← orFail (.statHandle file) "inspect reviewed destination file"
  demand (opened.identity = status.identity) staleAction
  let actual ← digestOf file
  demand (actual = digest) staleAction

def fileExpectation (text : List Char) : Option (List Char × String) :=
  (splitOnce ['|'] text).map fun parts => (parts.1, String.ofList parts.2)

def verifyFile (status : Stat) (text : List Char) : HelperAttempt Unit := do
  let (identity, digest) ← check ((fileExpectation text).elim (.error (.failed staleAction)) .ok)
  demand (status.kind = .regular) staleAction
  demand (identity ≠ [] ∧ (String.ofList identity).utf8ByteSize < 96)
    "reviewed destination file identity validation"
  verifyEntryIdentity status identity
  demand (digest.utf8ByteSize = 64) "reviewed destination file digest validation"
  verifyFileContent parent name status digest

def verifyPresent (expected : String) : HelperAttempt Unit := do
  let status : Stat ← orFail (.statAt parent name) staleAction
  match stripLead "directory|".toList expected.toList with
  | some identity => do
      demand (status.kind = .directory) staleAction
      verifyEntryIdentity status identity
  | none =>
      match stripLead "file|".toList expected.toList with
      | some text => verifyFile parent name status text
      | none => throw (.failed "reviewed destination entry precondition validation")

def verifyEntryPrecondition (expected : String) : HelperAttempt Unit :=
  if expected = "absent" then verifyAbsent parent name else verifyPresent parent name expected

end

section

def lastName (names : List String) : String := names.getLastD ""

def makeReviewedDirectory (parent : Handle) (name expected : String) : HelperAttempt Unit :=
  if expected = "absent" then do
    verifyEntryPrecondition parent name expected
    orFail (.makeDirectoryAt parent name) "create selected-root directory"
    syncDirectory parent "flush selected-root parent after directory creation"
  else if (stripLead "directory|".toList expected.toList).isSome then
    verifyEntryPrecondition parent name expected
  else throw (.failed "selected-root directory precondition validation")

def ensureDirectory (root : Handle) (relative expected : String) : HelperAttempt Unit := do
  let names ← check (splitRelative relative)
  let parent ← openRelativeParent root names
  makeReviewedDirectory parent (lastName names) expected
  let _ ← openDirectoryAt parent (lastName names) "open selected-root directory after validation"

def removeEntry (root : Handle) (relative : String) (directory : Bool) (expected : String) :
    HelperAttempt Unit := do
  let names ← check (splitRelative relative)
  let parent ← openRelativeParent root names
  let name := lastName names
  let status : Stat ← orFail (.statAt parent name) "inspect selected-root entry"
  demand (status.kind = if directory then .directory else .regular)
    "selected-root entry type changed after review"
  verifyEntryPrecondition parent name expected
  orFail (.unlinkAt parent name directory) "remove selected-root entry"
  syncDirectory parent "flush selected-root directory after removal"

variable (fuel process : Nat)

def temporaryName (attempt : Nat) : String :=
  ".emuchef-copy-" ++ toString process ++ "-" ++ toString attempt

def temporaryAction : String := "create selected-root temporary file"

def createTemporary (parent : Handle) : List Nat → HelperAttempt String
  | [] => throw (.failed temporaryAction)
  | attempt :: rest => do
      match ← ExceptT.lift (issue (.createFileAt parent (temporaryName process attempt))) with
      | .ok _ => pure (temporaryName process attempt)
      | .error .exists => createTemporary parent rest
      | .error _ => throw (.failed temporaryAction)

def writeAction : String := "write selected-root temporary file"

def writeAll (destination : Handle) : Nat → List UInt8 → HelperAttempt Unit
  | _, [] => pure ()
  | 0, _ => throw .unfinished
  | fuel + 1, bytes => do
      match ← ExceptT.lift (issue (.write destination bytes)) with
      | .ok written =>
          let count : Nat := written
          if count = 0 then throw (.failed writeAction)
          else writeAll destination fuel (bytes.drop count)
      | .error .interrupted => writeAll destination fuel bytes
      | .error _ => throw (.failed writeAction)

def bufferSize : Nat := 65536

def copyFile (source destination : Handle) : Nat → HelperAttempt Unit
  | 0 => throw .unfinished
  | fuel + 1 => do
      match ← ExceptT.lift (issue (.read source bufferSize)) with
      | .ok found =>
          let bytes : List UInt8 := found
          if bytes = [] then pure ()
          else do
            writeAll destination fuel bytes
            copyFile source destination fuel
      | .error .interrupted => copyFile source destination fuel
      | .error _ => throw (.failed "read staged file")

def openStaged (stageRoot : String) (names : List String) (sourceSha256 : String) :
    HelperAttempt Handle := do
  let stage ← openAbsoluteDirectory stageRoot
  let parent ← openRelativeParent stage names
  let source : Handle ← orFail (.openFileAt parent (lastName names))
    "open staged file without following links"
  let status : Stat ← orFail (.statHandle source) "validate staged regular file"
  demand (status.kind = .regular) "validate staged regular file"
  orFail (.rewind source) "rewind staged file for digest validation"
  let digest ← digestOf source
  demand (digest = sourceSha256) "staged file digest mismatch"
  orFail (.rewind source) "rewind staged file for publication"
  pure source

def fillTemporary (source destination : Handle) : HelperAttempt String := do
  copyFile source destination fuel
  orFail (.changeMode destination) "flush selected-root temporary file"
  orFail (.flush destination) "flush selected-root temporary file"
  orFail (.rewind destination) "rewind selected-root temporary file for digest validation"
  digestOf destination

def discard {α : Type} (parent : Handle) (temporary action : String) : HelperAttempt α := do
  let _ ← ExceptT.lift (issue (.unlinkAt parent temporary false))
  throw (.failed action)

def publishTemporary (parent : Handle) (temporary name expected : String) :
    HelperAttempt Unit := do
  verifyEntryPrecondition parent name expected
  match ← ExceptT.lift (issue (.renameAt parent temporary name)) with
  | .ok _ => syncDirectory parent "flush selected-root directory after publish"
  | .error _ => discard parent temporary "publish selected-root file"

def publishFile (root : Handle) (stageRoot relative expected sourceSha256 : String) :
    HelperAttempt Unit := do
  let names ← check (splitRelative relative)
  let source ← openStaged stageRoot names sourceSha256
  let parent ← openRelativeParent root names
  let temporary ← createTemporary process parent (List.range 32)
  let published ← fillTemporary fuel source (parent ++ [temporary])
  if published = sourceSha256 then publishTemporary parent temporary (lastName names) expected
  else discard parent temporary "staged file digest mismatch"

def performAction (arguments : HelperArguments) (root : Handle) : HelperAttempt Unit :=
  match arguments.action with
  | "ensure-dir" => ensureDirectory root arguments.relative arguments.expected
  | "remove-file" => removeEntry root arguments.relative false arguments.expected
  | "remove-dir" => removeEntry root arguments.relative true arguments.expected
  | "publish" => publishFile fuel process root arguments.stageRoot arguments.relative
      arguments.expected (arguments.sourceSha256.getD "")
  | _ => throw .usage

def runHelper (arguments : HelperArguments) : HelperAttempt Unit := do
  check (if arguments.sourceSha256.isSome = decide (arguments.action = "publish") then .ok ()
    else .error .usage)
  let root ← openReviewedSelectedRoot arguments.root arguments.binding
  verifySelectedIdentity root arguments.binding
  performAction fuel process arguments root

end

end EmuChef.Helper
