import EmuChef.Executor.PermissionStep
import EmuChef.Executor.CopyPlan
import EmuChef.Lib.Shell

/-! The shell commands that the ADB device sends, quoted ones and the lifecycle commands whose words
go out as they are. -/

namespace EmuChef.Adb

open Executor (isValidPackageId isAsciiLetter isAsciiDigit isAppPrivatePath)

inductive RootShellMode where
  | suCommand
  | suUserId
  deriving DecidableEq

def isUnquotedLetter (letter : Char) : Bool :=
  letter.isAlphanum || "_@%+=:,./-".toList.contains letter

def replaceQuote (letter : Char) : List Char :=
  if letter = '\'' then ['\'', '"', '\'', '"', '\''] else [letter]

def shellQuote (arg : String) : String :=
  if arg ≠ "" ∧ arg.toList.all isUnquotedLetter then arg
  else String.ofList (['\''] ++ arg.toList.flatMap replaceQuote ++ ['\''])

def shellJoin (args : List String) : String := " ".intercalate (args.map shellQuote)

def suWords (rootShellMode : RootShellMode) (command : String) : List String :=
  match rootShellMode with
  | .suCommand => ["su", "-c", command]
  | .suUserId => ["su", "0", "sh", "-c", command]

def buildShellCommandWithMode (args : List String) (privileged : Bool)
    (rootShellMode : RootShellMode) : String :=
  let command := shellJoin args
  if privileged then shellJoin (suWords rootShellMode command) else command

def isActivityPiece (piece : List Char) : Bool :=
  piece.head?.any (fun letter => isAsciiLetter letter || letter = '_') &&
    piece.all fun letter =>
      isAsciiLetter letter || isAsciiDigit letter || letter = '_' || letter = '$'

def isValidConcreteLauncherActivity (activity : String) : Bool :=
  let pieces := activity.toList.splitOnP fun letter => letter = '.'
  2 ≤ pieces.length && pieces.all isActivityPiece

inductive PackageCommand where
  | path
  | forceStop
  | resolveByCmd
  | resolveByPm
  | monkey
  deriving DecidableEq

/-- What the device is asked to run: a quoted command line, or words handed to `adb` as they are.
A resolved component is what the device printed for a package. -/
inductive DeviceShellCommand where
  | quoted (args : List String) (privileged : Bool)
  | ofPackage (command : PackageCommand) (packageName : String)
  | startActivity (packageName activity : String)
  | startResolved (component : String)
  deriving DecidableEq

def runShell (args : List String) : DeviceShellCommand :=
  .quoted args (args.getLast?.any isAppPrivatePath)

def runShellWithPrivilege (args : List String) (privileged : Bool) : DeviceShellCommand :=
  .quoted args privileged

def syncFile (dest : String) : DeviceShellCommand :=
  runShell ["dd", "if=/dev/null", "of=" ++ dest, "count=0", "conv=notrunc,fsync"]

def mkdirP (path : String) : DeviceShellCommand := runShell ["mkdir", "-p", path]

def removeFile (path : String) : DeviceShellCommand := runShell ["rm", "-f", path]

def removeTree (path : String) : DeviceShellCommand := runShell ["rm", "-rf", path]

def copyOnDevice (source dest : String) (recursive privileged : Bool) : DeviceShellCommand :=
  runShellWithPrivilege (["cp"] ++ (if recursive then ["-R"] else []) ++ [source, dest])
    (privileged || isAppPrivatePath source || isAppPrivatePath dest)

def pathExists (path : String) : DeviceShellCommand := runShell ["test", "-e", path]

def pathIsDir (path : String) : DeviceShellCommand := runShell ["test", "-d", path]

def packageInstalled (packageName : String) : DeviceShellCommand := .ofPackage .path packageName

def forceStopApp (packageName : String) : DeviceShellCommand := .ofPackage .forceStop packageName

def resolveLauncherActivity (packageName : String) : List DeviceShellCommand :=
  [.ofPackage .resolveByCmd packageName, .ofPackage .resolveByPm packageName]

def launchApp (packageName : String) (activity resolved : Option String) : DeviceShellCommand :=
  match activity.filter (· ≠ "") with
  | some activity => .startActivity packageName activity
  | none =>
      match resolved with
      | some component => .startResolved component
      | none => .ofPackage .monkey packageName

def packageWords (packageName : String) : PackageCommand → List String
  | .path => ["pm", "path", packageName]
  | .forceStop => ["am", "force-stop", packageName]
  | .resolveByCmd => ["cmd", "package", "resolve-activity", "--brief", packageName]
  | .resolveByPm => ["pm", "resolve-activity", "--brief", packageName]
  | .monkey => ["monkey", "-p", packageName, "-c", "android.intent.category.LAUNCHER", "1"]

def startWords (component : String) : List String := ["am", "start", "-n", component]

def shellArguments (rootShellMode : RootShellMode) : DeviceShellCommand → List String
  | .quoted args privileged => [buildShellCommandWithMode args privileged rootShellMode]
  | .ofPackage command packageName => packageWords packageName command
  | .startActivity packageName activity => startWords (packageName ++ "/" ++ activity)
  | .startResolved component => startWords component

def intendedWords : DeviceShellCommand → List String
  | .quoted args _ => args
  | .ofPackage command packageName => packageWords packageName command
  | .startActivity packageName activity => startWords (packageName ++ "/" ++ activity)
  | .startResolved component => startWords component

def isPrivileged : DeviceShellCommand → Bool
  | .quoted _ privileged => privileged
  | _ => false

def suScript : List String → Option String
  | ["su", "-c", script] => some script
  | ["su", "0", "sh", "-c", script] => some script
  | _ => none

/-- What the device runs: `adb` joins the arguments with blanks, the shell reads the words, and
`su` runs its command line with a shell of its own. -/
def received (outer inner : List Char → List Char) (rootShellMode : RootShellMode)
    (command : DeviceShellCommand) : Option (List String) :=
  (Shell.tokenise outer (" ".intercalate (shellArguments rootShellMode command))).bind fun words =>
    if isPrivileged command then (suScript words).bind (Shell.tokenise inner) else some words

def ReachesIntended (rootShellMode : RootShellMode) (command : DeviceShellCommand) : Prop :=
  ∀ outer inner, received outer inner rootShellMode command = some (intendedWords command)

section

theorem isUnquotedLetter_plain {letter : Char} (unquoted : isUnquotedLetter letter = true) :
    Shell.isPlainLetter letter = true ∧ letter ≠ '$' ∧ letter ≠ '#' := by
  have never (other : Char) (quoted : isUnquotedLetter other = false) : letter ≠ other := by
    rintro rfl
    rw [quoted] at unquoted
    exact nomatch unquoted
  have notBackquote : letter.toNat ≠ 0x60 := by
    intro same
    have equal : letter = Char.ofNat 0x60 := by rw [← same, Char.ofNat_toNat]
    exact never _ (by decide) equal
  refine ⟨?_, never '$' (by decide), never '#' (by decide)⟩
  simp [Shell.isPlainLetter, Shell.isBlank, Shell.isOperator, notBackquote, never ' ' (by decide),
    never '\t' (by decide), never '\n' (by decide), never ';' (by decide), never '&' (by decide),
    never '|' (by decide), never '<' (by decide), never '>' (by decide), never '(' (by decide),
    never ')' (by decide), never '\'' (by decide), never '"' (by decide), never '\\' (by decide)]

variable (env : List Char → List Char)

theorem scan_unquoted {text : List Char} (unquoted : text.all isUnquotedLetter = true)
    (word : List Char) (words : List (List Char)) :
    Shell.scan env ⟨.bare, some word, words⟩ text = some ⟨.bare, some (word ++ text), words⟩ := by
  induction text generalizing word with
  | nil => simp
  | cons letter rest ih =>
      obtain ⟨first, others⟩ : isUnquotedLetter letter = true ∧ rest.all isUnquotedLetter = true := by
        simpa using unquoted
      obtain ⟨plain, ordinary, _⟩ := isUnquotedLetter_plain first
      rw [Shell.scan_cons, Shell.feed_plain env plain ordinary fun _ => by simp]
      simpa using ih others (word ++ [letter])

theorem writes_unquoted {text : List Char} (nonempty : text ≠ [])
    (unquoted : text.all isUnquotedLetter = true) : Shell.Writes env text text := by
  intro words
  obtain ⟨letter, rest, rfl⟩ := List.exists_cons_of_ne_nil nonempty
  obtain ⟨first, others⟩ : isUnquotedLetter letter = true ∧ rest.all isUnquotedLetter = true := by
    simpa using unquoted
  obtain ⟨plain, ordinary, notComment⟩ := isUnquotedLetter_plain first
  rw [Shell.scan_cons, Shell.feed_plain env plain ordinary fun same => absurd same notComment]
  simpa using scan_unquoted env others [letter] words

theorem scan_replaced (text word : List Char) (words : List (List Char)) :
    Shell.scan env ⟨.single, some word, words⟩ (text.flatMap replaceQuote) =
      some ⟨.single, some (word ++ text), words⟩ := by
  induction text generalizing word with
  | nil => simp
  | cons letter rest ih =>
      have first : Shell.scan env ⟨.single, some word, words⟩ (replaceQuote letter) =
          some ⟨.single, some (word ++ [letter]), words⟩ := by
        by_cases quote : letter = '\''
        · subst quote
          rfl
        · simp [replaceQuote, quote, Shell.feed, Shell.feedSingle, Shell.Lexer.push]
      rw [List.flatMap_cons, Shell.scan_append, first, Option.bind_some, ih]
      simp

theorem writes_shellQuote (arg : String) : Shell.Writes env (shellQuote arg).toList arg.toList := by
  unfold shellQuote
  split
  · next safe => exact writes_unquoted env (by simpa using safe.1) safe.2
  · intro words
    rw [String.toList_ofList, Shell.scan_append, Shell.scan_append]
    have opened : Shell.scan env ⟨.bare, none, words⟩ ['\''] = some ⟨.single, some [], words⟩ := rfl
    rw [opened, Option.bind_some, scan_replaced, Option.bind_some]
    rfl

theorem tokenise_shellJoin (args : List String) : Shell.tokenise env (shellJoin args) = some args := by
  have read := Shell.read_written env (fun arg => (shellQuote arg).toList) String.toList
    fun arg (_ : arg ∈ args) => writes_shellQuote env arg
  have text : (shellJoin args).toList = [' '].intercalate (args.map fun arg => (shellQuote arg).toList) := by
    simp [shellJoin, Function.comp_def]
  rw [Shell.tokenise, text, read]
  simp [Function.comp_def]

end

def Valid : DeviceShellCommand → Prop
  | .quoted _ _ | .startResolved _ => True
  | .ofPackage _ packageName => isValidPackageId packageName = true
  | .startActivity packageName activity =>
      isValidPackageId packageName = true ∧ isValidConcreteLauncherActivity activity = true

def keepsDollars : List Char → Bool
  | [] => true
  | letter :: rest => !(letter = '$' && Shell.headStartsExpansion rest) && keepsDollars rest

def ReadsAsWritten : DeviceShellCommand → Prop
  | .quoted _ _ | .ofPackage _ _ => True
  | .startActivity _ activity => keepsDollars activity.toList = true
  | .startResolved component => Shell.isPlainWord component.toList = true

theorem mem_of_splitOnP {α : Type} (separates : α → Bool) {text : List α} {letter : α}
    (member : letter ∈ text) :
    separates letter = true ∨ ∃ piece ∈ text.splitOnP separates, letter ∈ piece := by
  induction text with
  | nil => simp at member
  | cons head rest ih =>
      rw [List.splitOnP_cons_eq_if_modifyHead]
      by_cases separator : separates head = true
      · rw [if_pos separator]
        rcases List.mem_cons.mp member with rfl | later
        · exact .inl separator
        · exact (ih later).imp_right fun ⟨piece, found, inside⟩ =>
            ⟨piece, List.mem_cons_of_mem _ found, inside⟩
      · rw [if_neg separator]
        obtain ⟨first, others, pieces⟩ := List.exists_cons_of_ne_nil (List.splitOnP_ne_nil separates rest)
        rw [pieces] at ih ⊢
        rcases List.mem_cons.mp member with rfl | later
        · exact .inr ⟨letter :: first, by simp, by simp⟩
        · rcases ih later with separated | ⟨piece, found, inside⟩
          · exact .inl separated
          · rcases List.mem_cons.mp found with rfl | other
            · exact .inr ⟨head :: piece, by simp, List.mem_cons_of_mem _ inside⟩
            · exact .inr ⟨piece, by simp [other], inside⟩

theorem isAsciiLetter_eq (letter : Char) : isAsciiLetter letter = letter.isAlpha := by
  delta Char.isAlpha Char.isUpper Char.isLower
  simp only [isAsciiLetter, Executor.isAsciiLower, Char.le_def, Bool.or_comm, Bool.decide_and]

theorem isAsciiDigit_eq (letter : Char) : isAsciiDigit letter = letter.isDigit := by
  simp only [isAsciiDigit, Char.isDigit, Char.le_def]

theorem isPackageLetter_unquoted {letter : Char}
    (allowed : (isAsciiLetter letter || isAsciiDigit letter || letter = '_') = true) :
    isUnquotedLetter letter = true := by
  rw [isAsciiLetter_eq, isAsciiDigit_eq] at allowed
  simp only [Bool.or_eq_true, decide_eq_true_eq] at allowed
  rcases allowed with letters | rfl
  · simp [isUnquotedLetter, Char.isAlphanum, letters]
  · decide

theorem packageId_unquoted {packageId : String} (valid : isValidPackageId packageId = true) :
    packageId ≠ "" ∧ packageId.toList.all isUnquotedLetter = true := by
  refine ⟨?_, List.all_eq_true.mpr fun letter member => ?_⟩
  · rintro rfl
    exact absurd valid (by decide)
  · simp only [isValidPackageId, Bool.and_eq_true, List.all_eq_true] at valid
    rcases mem_of_splitOnP (fun letter => letter = '.') member with
      dot | ⟨piece, found, inside⟩
    · rw [decide_eq_true_eq] at dot
      subst dot
      decide
    · have allowed := valid.2 piece found
      simp only [Executor.isPackagePiece, Bool.and_eq_true, List.all_eq_true] at allowed
      exact isPackageLetter_unquoted (allowed.2 letter inside)

theorem activity_letters {activity : String} (valid : isValidConcreteLauncherActivity activity = true)
    {letter : Char} (member : letter ∈ activity.toList) :
    isUnquotedLetter letter = true ∨ letter = '$' := by
  simp only [isValidConcreteLauncherActivity, Bool.and_eq_true, List.all_eq_true] at valid
  rcases mem_of_splitOnP (fun letter => letter = '.') member with
      dot | ⟨piece, found, inside⟩
  · rw [decide_eq_true_eq] at dot
    subst dot
    exact .inl (by decide)
  · have allowed := valid.2 piece found
    simp only [isActivityPiece, Bool.and_eq_true, List.all_eq_true] at allowed
    rcases Bool.or_eq_true_iff.mp (allowed.2 letter inside) with named | dollar
    · exact .inl (isPackageLetter_unquoted named)
    · exact .inr (by simpa using dollar)

theorem isPlainText_eq_keepsDollars {text : List Char}
    (letters : ∀ letter ∈ text, Shell.isPlainLetter letter = true) :
    Shell.isPlainText text = keepsDollars text := by
  induction text with
  | nil => rfl
  | cons letter rest ih =>
      rw [Shell.isPlainText, keepsDollars, letters letter (by simp), Bool.true_and,
        ih fun other member => letters other (by simp [member])]

theorem keepsDollars_append {before after : List Char} (none : '$' ∉ before) :
    keepsDollars (before ++ after) = keepsDollars after := by
  induction before with
  | nil => rfl
  | cons letter rest ih =>
      obtain ⟨ordinary, others⟩ : '$' ≠ letter ∧ '$' ∉ rest := by simpa using none
      simp [keepsDollars, Ne.symm ordinary, ih others]

theorem component_plain {packageName activity : String}
    (package : isValidPackageId packageName = true)
    (launcher : isValidConcreteLauncherActivity activity = true) :
    Shell.isPlainWord (packageName ++ "/" ++ activity).toList = keepsDollars activity.toList := by
  obtain ⟨nonempty, unquoted⟩ := packageId_unquoted package
  have plainPackage : ∀ letter ∈ packageName.toList, Shell.isPlainLetter letter = true ∧
      letter ≠ '$' ∧ letter ≠ '#' := fun letter member =>
    isUnquotedLetter_plain (List.all_eq_true.mp unquoted letter member)
  have letters : ∀ letter ∈ (packageName ++ "/" ++ activity).toList,
      Shell.isPlainLetter letter = true := by
    intro letter member
    simp only [String.toList_append, List.mem_append] at member
    rcases member with (inPackage | slash) | inActivity
    · exact (plainPackage letter inPackage).1
    · obtain rfl : letter = '/' := by simpa using slash
      decide
    · rcases activity_letters launcher inActivity with safe | rfl
      · exact (isUnquotedLetter_plain safe).1
      · decide
  have noDollar : '$' ∉ packageName.toList ++ "/".toList := by
    intro member
    rcases List.mem_append.mp member with inPackage | slash
    · exact (plainPackage '$' inPackage).2.1 rfl
    · simp at slash
  obtain ⟨letter, rest, spelled⟩ := List.exists_cons_of_ne_nil
    (by simpa using nonempty : packageName.toList ≠ [])
  have head : letter ≠ '#' := (plainPackage letter (by simp [spelled])).2.2
  rw [Shell.isPlainWord, isPlainText_eq_keepsDollars letters, String.toList_append,
    String.toList_append, keepsDollars_append noDollar]
  simp [spelled, head]

theorem tokenise_unquoted (env : List Char → List Char) {words : List String}
    (safe : ∀ word ∈ words, word ≠ "" ∧ word.toList.all isUnquotedLetter = true) :
    Shell.tokenise env (" ".intercalate words) = some words := by
  have read := Shell.read_written env String.toList String.toList fun word (member : word ∈ words) =>
    writes_unquoted env (by simpa using (safe word member).1) (safe word member).2
  rw [Shell.tokenise, String.toList_intercalate, show " ".toList = [' '] from rfl, read]
  simp [Function.comp_def]

theorem start_safe : ∀ word ∈ ["am", "start", "-n"],
    word ≠ "" ∧ word.toList.all isUnquotedLetter = true := by decide

theorem startWords_text (component : String) :
    (" ".intercalate (startWords component)).toList =
      [' '].intercalate (["am", "start", "-n"].map String.toList ++ [component.toList]) := by
  simp [startWords]

theorem tokenise_startWords (component : String) :
    (∀ env, Shell.tokenise env (" ".intercalate (startWords component)) =
      some (startWords component)) ↔ Shell.isPlainWord component.toList = true := by
  have writes (env : List Char → List Char) : ∀ word ∈ ["am", "start", "-n"],
      Shell.Writes env word.toList word.toList := fun word member =>
    writes_unquoted env (by simpa using (start_safe word member).1) (start_safe word member).2
  constructor
  · intro faithful
    have read := faithful Shell.unset
    rw [Shell.tokenise, startWords_text] at read
    refine Shell.plain_of_read String.toList String.toList (writes Shell.unset) ?_
    obtain ⟨words, found, same⟩ := Option.map_eq_some_iff.mp read
    have spelled : words = (startWords component).map String.toList := by
      rw [← same]
      simp [Function.comp_def]
    rw [found, spelled]
    rfl
  · intro plain env
    rw [Shell.tokenise, startWords_text,
      Shell.read_plain env String.toList String.toList (writes env) plain]
    simp [startWords]

theorem packageWords_safe {packageName : String} (valid : isValidPackageId packageName = true)
    (command : PackageCommand) : ∀ word ∈ packageWords packageName command,
      word ≠ "" ∧ word.toList.all isUnquotedLetter = true := by
  obtain ⟨nonempty, unquoted⟩ := packageId_unquoted valid
  cases command <;> simp only [packageWords, List.forall_mem_cons, List.not_mem_nil, false_implies,
    implies_true, and_true, ne_eq, nonempty, not_false_eq_true, unquoted, true_and] <;> decide

theorem suScript_suWords (rootShellMode : RootShellMode) (command : String) :
    suScript (suWords rootShellMode command) = some command := by
  cases rootShellMode <;> rfl

theorem reachesIntended_quoted (rootShellMode : RootShellMode) (args : List String)
    (privileged : Bool) : ReachesIntended rootShellMode (.quoted args privileged) := by
  intro outer inner
  cases privileged with
  | false => simp [received, shellArguments, buildShellCommandWithMode, isPrivileged,
      tokenise_shellJoin, intendedWords]
  | true => simp [received, shellArguments, buildShellCommandWithMode, isPrivileged,
      tokenise_shellJoin, intendedWords, suScript_suWords]

theorem reachesIntended_ofPackage (rootShellMode : RootShellMode) {packageName : String}
    (valid : isValidPackageId packageName = true) (command : PackageCommand) :
    ReachesIntended rootShellMode (.ofPackage command packageName) := by
  intro outer inner
  simp [received, shellArguments, isPrivileged, intendedWords,
    tokenise_unquoted outer (packageWords_safe valid command)]

/-- Every file command reaches the shell as meant, with any paths. -/
theorem fileCommand_reaches (rootShellMode : RootShellMode) (source dest : String)
    (recursive privileged : Bool) :
    ∀ command ∈ [syncFile dest, mkdirP dest, removeFile dest, removeTree dest, pathExists dest,
      pathIsDir dest, copyOnDevice source dest recursive privileged],
      ReachesIntended rootShellMode command := by
  have sends := reachesIntended_quoted rootShellMode
  simp only [List.forall_mem_cons, List.not_mem_nil, false_implies, implies_true, and_true]
  exact ⟨sends _ _, sends _ _, sends _ _, sends _ _, sends _ _, sends _ _, sends _ _⟩

/-- So does every command for a valid package id that names no activity. -/
theorem packageCommand_reaches (rootShellMode : RootShellMode) {packageName : String}
    (valid : isValidPackageId packageName = true) :
    ∀ command ∈ packageInstalled packageName :: forceStopApp packageName ::
      launchApp packageName none none :: resolveLauncherActivity packageName,
      ReachesIntended rootShellMode command := by
  have sends := reachesIntended_ofPackage rootShellMode valid
  simp only [resolveLauncherActivity, List.forall_mem_cons, List.not_mem_nil, false_implies,
    implies_true, and_true]
  exact ⟨sends _, sends _, sends _, sends _, sends _⟩

/-- The commands of the device reach its shell as meant, whatever its parameters are, exactly when
the words that go out without quotes are plain. -/
theorem reachesIntended_iff (rootShellMode : RootShellMode) {command : DeviceShellCommand}
    (valid : Valid command) : ReachesIntended rootShellMode command ↔ ReadsAsWritten command := by
  have direct (component : String) (start : DeviceShellCommand)
      (sends : ∀ outer inner, received outer inner rootShellMode start =
        Shell.tokenise outer (" ".intercalate (startWords component)))
      (means : intendedWords start = startWords component) :
      ReachesIntended rootShellMode start ↔ Shell.isPlainWord component.toList = true := by
    rw [← tokenise_startWords, ReachesIntended]
    simp only [sends, means]
    exact ⟨fun reaches env => reaches env Shell.unset, fun reaches outer _ => reaches outer⟩
  cases command with
  | quoted args privileged =>
      exact iff_of_true (reachesIntended_quoted rootShellMode args privileged) trivial
  | ofPackage command packageName =>
      exact iff_of_true (reachesIntended_ofPackage rootShellMode valid command) trivial
  | startActivity packageName activity =>
      rw [direct (packageName ++ "/" ++ activity) _ (fun _ _ => by
        simp [received, shellArguments, isPrivileged]) rfl, component_plain valid.1 valid.2]
      rfl
  | startResolved component =>
      exact direct component _ (fun _ _ => by simp [received, shellArguments, isPrivileged]) rfl

/-- An inner class as launcher activity, in a shell that has no parameters set. -/
theorem not_reachesIntended_innerClass :
    Valid (.startActivity "com.example.app" "com.example.app.Outer$Inner") ∧
      received Shell.unset Shell.unset .suCommand
        (launchApp "com.example.app" (some "com.example.app.Outer$Inner") none) =
        some ["am", "start", "-n", "com.example.app/com.example.app.Outer"] ∧
      ¬ ReachesIntended .suCommand
        (launchApp "com.example.app" (some "com.example.app.Outer$Inner") none) := by
  have seen : received Shell.unset Shell.unset .suCommand
      (launchApp "com.example.app" (some "com.example.app.Outer$Inner") none) =
      some ["am", "start", "-n", "com.example.app/com.example.app.Outer"] := by decide
  refine ⟨⟨by decide, by decide⟩, seen, fun reaches => ?_⟩
  have meant := reaches Shell.unset Shell.unset
  rw [seen] at meant
  exact absurd meant (by decide)

theorem reachesIntended_iff_sample :
    Valid (.startActivity "com.retroarch" "com.retroarch.Main") ∧
      ReachesIntended .suUserId (.startActivity "com.retroarch" "com.retroarch.Main") := by
  have valid : Valid (.startActivity "com.retroarch" "com.retroarch.Main") :=
    ⟨by decide, by decide⟩
  have literal : keepsDollars "com.retroarch.Main".toList = true := by decide
  exact ⟨valid, (reachesIntended_iff .suUserId valid).mpr literal⟩

end EmuChef.Adb
