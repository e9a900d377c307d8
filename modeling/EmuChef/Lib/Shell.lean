import Mathlib.Algebra.Ring.Nat
import Mathlib.Data.List.Induction

/-! The words that a POSIX shell reads from a command line: quoting, parameter expansion and field
splitting. -/

namespace EmuChef.Shell

/-- Where the lexer is; in an escape, a dollar or a name it also knows whether it is quoted. -/
inductive Mode where
  | bare
  | single
  | double
  | escape (quoted : Bool)
  | dollar (quoted : Bool)
  | name (quoted : Bool) (read : List Char)
  | comment
  deriving DecidableEq

structure Lexer where
  mode : Mode
  word : Option (List Char)
  words : List (List Char)
  deriving DecidableEq

def isBlank (letter : Char) : Bool := letter = ' ' || letter = '\t'

def isOperator (letter : Char) : Bool :=
  letter = '\n' || letter = ';' || letter = '&' || letter = '|' || letter = '<' || letter = '>' ||
    letter = '(' || letter = ')' || letter.toNat = 0x60

def isNameStart (letter : Char) : Bool := letter.isAlpha || letter = '_'

def isNameLetter (letter : Char) : Bool := letter.isAlphanum || letter = '_'

def isSpecialParameter (letter : Char) : Bool :=
  letter.isDigit || letter = '@' || letter = '*' || letter = '#' || letter = '?' ||
    letter = '-' || letter = '$' || letter = '!'

def opensSubstitution (letter : Char) : Bool :=
  letter = '\x7b' || letter = '(' || letter = '\''

def startsExpansion (letter : Char) : Bool :=
  isNameStart letter || isSpecialParameter letter || opensSubstitution letter

namespace Lexer

def push (lexer : Lexer) (letter : Char) : Lexer :=
  { lexer with word := some (lexer.word.getD [] ++ [letter]) }

def enter (lexer : Lexer) (mode : Mode) : Lexer := { lexer with mode := mode }

def startWord (lexer : Lexer) : Lexer := { lexer with word := some (lexer.word.getD []) }

def cut (lexer : Lexer) : Lexer :=
  { lexer with word := none, words := lexer.words ++ lexer.word.toList }

end Lexer

def feedBare (lexer : Lexer) (letter : Char) : Option Lexer :=
  if isBlank letter then some (lexer.cut.enter .bare)
  else if isOperator letter then none
  else if letter = '\'' then some (lexer.startWord.enter .single)
  else if letter = '"' then some (lexer.startWord.enter .double)
  else if letter = '\\' then some (lexer.enter (.escape false))
  else if letter = '$' then some (lexer.enter (.dollar false))
  else if letter = '#' ∧ lexer.word = none then some (lexer.enter .comment)
  else some ((lexer.push letter).enter .bare)

def feedSingle (lexer : Lexer) (letter : Char) : Lexer :=
  if letter = '\'' then lexer.enter .bare else lexer.push letter

def feedDouble (lexer : Lexer) (letter : Char) : Option Lexer :=
  if letter = '"' then some (lexer.enter .bare)
  else if letter = '\\' then some (lexer.enter (.escape true))
  else if letter = '$' then some (lexer.enter (.dollar true))
  else if letter.toNat = 0x60 then none
  else some ((lexer.push letter).enter .double)

def feedInside (quoted : Bool) (lexer : Lexer) (letter : Char) : Option Lexer :=
  if quoted then feedDouble lexer letter else feedBare lexer letter

def surround (quoted : Bool) : Mode := if quoted then .double else .bare

def feedEscape (quoted : Bool) (lexer : Lexer) (letter : Char) : Lexer :=
  if letter = '\n' then lexer.enter (surround quoted)
  else if quoted = true ∧ letter ≠ '$' ∧ letter ≠ '"' ∧ letter ≠ '\\' ∧ letter.toNat ≠ 0x60 then
    ((lexer.push '\\').push letter).enter .double
  else (lexer.push letter).enter (surround quoted)

section

variable (env : List Char → List Char)

def spread (lexer : Lexer) (letter : Char) : Lexer :=
  if isBlank letter ∨ letter = '\n' then lexer.cut else lexer.push letter

def expand (quoted : Bool) (lexer : Lexer) (name : List Char) : Lexer :=
  if quoted then { lexer with mode := .double, word := some (lexer.word.getD [] ++ env name) }
  else (env name).foldl spread (lexer.enter .bare)

def feedDollar (quoted : Bool) (lexer : Lexer) (letter : Char) : Option Lexer :=
  if isNameStart letter then some (lexer.enter (.name quoted [letter]))
  else if isSpecialParameter letter then some (expand env quoted lexer [letter])
  else if opensSubstitution letter then none
  else feedInside quoted ((lexer.push '$').enter (surround quoted)) letter

def feed (lexer : Lexer) (letter : Char) : Option Lexer :=
  match lexer.mode with
  | .bare => feedBare lexer letter
  | .single => some (feedSingle lexer letter)
  | .double => feedDouble lexer letter
  | .escape quoted => some (feedEscape quoted lexer letter)
  | .dollar quoted => feedDollar env quoted lexer letter
  | .name quoted read =>
      if isNameLetter letter then some (lexer.enter (.name quoted (read ++ [letter])))
      else feedInside quoted (expand env quoted lexer read) letter
  | .comment => if letter = '\n' then none else some lexer

def scan (lexer : Lexer) (text : List Char) : Option Lexer := text.foldlM (feed env) lexer

def finish (lexer : Lexer) : Option (List (List Char)) :=
  match lexer.mode with
  | .bare | .comment => some lexer.cut.words
  | .dollar false => some (lexer.push '$').cut.words
  | .name false read => some (expand env false lexer read).cut.words
  | .single | .double | .escape _ | .dollar true | .name true _ => none

def tokenise (text : String) : Option (List String) :=
  ((scan env ⟨.bare, none, []⟩ text.toList).bind (finish env)).map (List.map String.ofList)

@[simp] theorem scan_nil (lexer : Lexer) : scan env lexer [] = some lexer := rfl

@[simp] theorem scan_cons (lexer : Lexer) (letter : Char) (text : List Char) :
    scan env lexer (letter :: text) = (feed env lexer letter).bind (scan env · text) := rfl

theorem scan_append (lexer : Lexer) (before after : List Char) :
    scan env lexer (before ++ after) = (scan env lexer before).bind (scan env · after) := by
  induction before generalizing lexer with
  | nil => rfl
  | cons letter rest ih =>
      simp only [List.cons_append, scan_cons, Option.bind_assoc]
      exact congrArg _ (funext fun next => ih next)

end

def isPlainLetter (letter : Char) : Bool :=
  !isBlank letter && !isOperator letter && letter ≠ '\'' && letter ≠ '"' && letter ≠ '\\'

def headStartsExpansion : List Char → Bool
  | [] => false
  | letter :: _ => startsExpansion letter

def isPlainText : List Char → Bool
  | [] => true
  | letter :: rest =>
      isPlainLetter letter && !(letter = '$' && headStartsExpansion rest) && isPlainText rest

def isPlainWord (text : List Char) : Bool :=
  !text.isEmpty && text.head? ≠ some '#' && isPlainText text

section

variable (env : List Char → List Char)

theorem feed_plain {word : Option (List Char)} {words : List (List Char)} {letter : Char}
    (plain : isPlainLetter letter = true) (ordinary : letter ≠ '$')
    (inside : letter = '#' → word ≠ none) :
    feed env ⟨.bare, word, words⟩ letter = some ⟨.bare, some (word.getD [] ++ [letter]), words⟩ := by
  simp only [isPlainLetter, Bool.and_eq_true, Bool.not_eq_true', decide_eq_true_eq] at plain
  obtain ⟨⟨⟨⟨notBlank, notOperator⟩, notSingle⟩, notDouble⟩, notEscape⟩ := plain
  have notComment : ¬ (letter = '#' ∧ word = none) := fun ⟨same, empty⟩ => inside same empty
  simp [feed, feedBare, notBlank, notOperator, notSingle, notDouble, notEscape, ordinary,
    notComment, Lexer.push, Lexer.enter]

theorem feed_dollar {word : Option (List Char)} {words : List (List Char)} {letter : Char}
    (literal : startsExpansion letter = false) :
    feed env ⟨.dollar false, word, words⟩ letter =
      feed env ⟨.bare, some (word.getD [] ++ ['$']), words⟩ letter := by
  simp only [startsExpansion, Bool.or_eq_false_iff] at literal
  obtain ⟨⟨notName, notSpecial⟩, notOpen⟩ := literal
  simp [feed, feedDollar, notName, notSpecial, notOpen, feedInside, surround, Lexer.push,
    Lexer.enter]

theorem scan_plain (text : List Char) (plain : isPlainText text = true) :
    (∀ word words, (text.head? = some '#' → word ≠ none) → (text = [] → word ≠ none) →
      ∃ lexer, scan env ⟨.bare, word, words⟩ text = some lexer ∧
        finish env lexer = some (words ++ [word.getD [] ++ text])) ∧
    ∀ word words, headStartsExpansion text = false →
      ∃ lexer, scan env ⟨.dollar false, word, words⟩ text = some lexer ∧
        finish env lexer = some (words ++ [word.getD [] ++ '$' :: text]) := by
  induction text with
  | nil =>
      refine ⟨fun word words _ started => ?_, fun word words _ => ⟨_, rfl, ?_⟩⟩
      · obtain ⟨letters, rfl⟩ := Option.ne_none_iff_exists'.mp (started rfl)
        exact ⟨_, rfl, by simp [finish, Lexer.cut]⟩
      · simp [finish, Lexer.cut, Lexer.push]
  | cons letter rest ih =>
      simp only [isPlainText, Bool.and_eq_true, Bool.not_eq_true', Bool.and_eq_false_iff] at plain
      obtain ⟨⟨plainLetter, literal⟩, plainRest⟩ := plain
      obtain ⟨ihBare, ihDollar⟩ := ih plainRest
      have bare : ∀ word words, ((letter :: rest).head? = some '#' → word ≠ none) →
          ∃ lexer, scan env ⟨.bare, word, words⟩ (letter :: rest) = some lexer ∧
            finish env lexer = some (words ++ [word.getD [] ++ letter :: rest]) := by
        intro word words inside
        by_cases dollar : letter = '$'
        · subst dollar
          have after : headStartsExpansion rest = false := by simpa using literal
          exact ihDollar word words after
        · rw [scan_cons, feed_plain env plainLetter dollar fun same => inside (by simp [same])]
          obtain ⟨lexer, scanned, finished⟩ := ihBare (some (word.getD [] ++ [letter])) words
            (fun _ => by simp) (fun _ => by simp)
          exact ⟨lexer, scanned, by simpa using finished⟩
      refine ⟨fun word words inside _ => bare word words inside, fun word words after => ?_⟩
      obtain ⟨lexer, scanned, finished⟩ := bare (some (word.getD [] ++ ['$'])) words (fun _ => by simp)
      refine ⟨lexer, ?_, by simpa using finished⟩
      rw [scan_cons, feed_dollar env after]
      exact scanned

end

def Lexer.letters (lexer : Lexer) : Nat :=
  (lexer.words.map List.length).sum + (lexer.word.getD []).length

@[simp] theorem letters_push (lexer : Lexer) (letter : Char) :
    (lexer.push letter).letters = lexer.letters + 1 := by
  simp only [Lexer.letters, Lexer.push, Option.getD_some, List.length_append, List.length_singleton]
  omega

@[simp] theorem letters_enter (lexer : Lexer) (mode : Mode) :
    (lexer.enter mode).letters = lexer.letters := rfl

@[simp] theorem letters_startWord (lexer : Lexer) : lexer.startWord.letters = lexer.letters := rfl

@[simp] theorem letters_cut (lexer : Lexer) : lexer.cut.letters = lexer.letters := by
  obtain ⟨mode, word, words⟩ := lexer
  cases word <;> simp [Lexer.letters, Lexer.cut]

@[simp] def pending : Mode → Nat
  | .bare | .single | .double | .name _ _ | .comment => 0
  | .dollar _ => 1
  | .escape quoted => if quoted then 1 else 0

def weight (lexer : Lexer) : Nat := lexer.letters + pending lexer.mode

@[simp] theorem weight_enter (lexer : Lexer) (mode : Mode) :
    weight (lexer.enter mode) = lexer.letters + pending mode := rfl

@[simp] theorem pending_surround (quoted : Bool) : pending (surround quoted) = 0 := by
  cases quoted <;> rfl

def unset : List Char → List Char := fun _ => []

variable {lexer next : Lexer}

theorem weight_feedBare {letter : Char}
    (fed : feedBare lexer letter = some next) : weight next ≤ lexer.letters + 1 := by
  unfold feedBare at fed
  split_ifs at fed <;> cases fed <;> simp [pending]

theorem weight_feedDouble {letter : Char}
    (fed : feedDouble lexer letter = some next) : weight next ≤ lexer.letters + 1 := by
  unfold feedDouble at fed
  split_ifs at fed <;> cases fed <;> simp [pending]

theorem weight_feedInside {quoted : Bool} {letter : Char}
    (fed : feedInside quoted lexer letter = some next) : weight next ≤ lexer.letters + 1 := by
  cases quoted with
  | true => exact weight_feedDouble fed
  | false => exact weight_feedBare fed

@[simp] theorem letters_expand_unset (quoted : Bool) (lexer : Lexer) (name : List Char) :
    (expand unset quoted lexer name).letters = lexer.letters := by
  cases quoted <;> simp [expand, unset, Lexer.letters, Lexer.enter]

theorem weight_expand_unset (quoted : Bool) (lexer : Lexer) (name : List Char) :
    weight (expand unset quoted lexer name) = lexer.letters := by
  cases quoted <;> simp [weight, expand, unset, Lexer.letters, Lexer.enter, pending]

theorem weight_push (lexer : Lexer) (letter : Char) :
    weight (lexer.push letter) = weight lexer + 1 := by
  have more := letters_push lexer letter
  have same : (lexer.push letter).mode = lexer.mode := rfl
  rw [weight, weight, more, same]
  omega

theorem weight_feed {letter : Char} (fed : feed unset lexer letter = some next) :
    weight next ≤ weight lexer + 1 := by
  have heavier : lexer.letters + pending lexer.mode = weight lexer := rfl
  unfold feed at fed
  split at fed
  · have lighter := weight_feedBare fed
    omega
  · next mode =>
    cases fed
    unfold feedSingle
    split
    · have entered := weight_enter lexer .bare
      have bare : pending Mode.bare = 0 := rfl
      omega
    · have pushed := weight_push lexer letter
      omega
  · have lighter := weight_feedDouble fed
    omega
  · next quoted mode =>
    cases fed
    unfold feedEscape
    split_ifs with ends keeps
    · rw [weight_enter, pending_surround]
      omega
    · rw [mode, keeps.1, pending, if_pos rfl] at heavier
      rw [weight_enter, letters_push, letters_push, pending]
      omega
    · rw [weight_enter, letters_push, pending_surround]
      omega
  · next quoted mode =>
    rw [mode, pending] at heavier
    unfold feedDollar at fed
    split_ifs at fed
    · cases fed
      rw [weight_enter, pending]
      omega
    · cases fed
      rw [weight_expand_unset]
      omega
    · have lighter := weight_feedInside fed
      rw [letters_enter, letters_push] at lighter
      omega
  · next quoted read mode =>
    split_ifs at fed
    · cases fed
      rw [weight_enter, pending]
      omega
    · have lighter := weight_feedInside fed
      rw [letters_expand_unset] at lighter
      omega
  · split_ifs at fed
    cases fed
    omega

theorem weight_scan {text : List Char}
    (scanned : scan unset lexer text = some next) : weight next ≤ weight lexer + text.length := by
  induction text generalizing lexer with
  | nil =>
      cases scanned
      simp
  | cons letter rest ih =>
      rw [scan_cons] at scanned
      obtain ⟨middle, fed, scanned⟩ := Option.bind_eq_some_iff.mp scanned
      have first := weight_feed fed
      have later := ih scanned
      simp only [List.length_cons]
      omega

theorem finish_le {lexer : Lexer} {words : List (List Char)}
    (finished : finish unset lexer = some words) : (words.map List.length).sum ≤ weight lexer := by
  have cut (lexer : Lexer) : (lexer.cut.words.map List.length).sum = lexer.letters := by
    rw [← letters_cut]
    simp [Lexer.letters, Lexer.cut]
  unfold finish at finished
  split at finished <;> cases finished
  all_goals rw [cut]
  · simp [weight]
  · simp [weight]
  · next mode => simp [weight, mode, pending]
  · simp [weight]

theorem plain_of_weight (text : List Char) :
    (∀ word words next, scan unset ⟨.bare, word, words⟩ text = some next →
      weight next = weight ⟨.bare, word, words⟩ + text.length →
        isPlainText text = true ∧ (text.head? = some '#' → word ≠ none)) ∧
    ∀ word words next, scan unset ⟨.dollar false, word, words⟩ text = some next →
      weight next = weight ⟨.dollar false, word, words⟩ + text.length →
        isPlainText text = true ∧ headStartsExpansion text = false := by
  induction text with
  | nil => simp [isPlainText, headStartsExpansion]
  | cons letter rest ih =>
      obtain ⟨ihBare, ihDollar⟩ := ih
      have loses {middle next : Lexer} (start : Lexer) (lighter : weight middle ≤ weight start)
          (scanned : scan unset middle rest = some next)
          (kept : weight next = weight start + (rest.length + 1)) : False := by
        have bound := weight_scan scanned
        omega
      have bare : ∀ word words next, scan unset ⟨.bare, word, words⟩ (letter :: rest) = some next →
          weight next = weight ⟨.bare, word, words⟩ + (letter :: rest).length →
          isPlainText (letter :: rest) = true ∧ ((letter :: rest).head? = some '#' → word ≠ none) := by
        intro word words next scanned kept
        rw [scan_cons] at scanned
        obtain ⟨middle, fed, scanned⟩ := Option.bind_eq_some_iff.mp scanned
        rw [List.length_cons] at kept
        have start : weight ⟨.bare, word, words⟩ = (⟨.bare, word, words⟩ : Lexer).letters := rfl
        simp only [feed, feedBare] at fed
        split_ifs at fed with blank operator single double escape dollar comment <;> cases fed
        · exact (loses _ (by simp [start]) scanned kept).elim
        · exact (loses _ (by simp [start]) scanned kept).elim
        · exact (loses _ (by simp [start]) scanned kept).elim
        · exact (loses _ (by simp [start]) scanned kept).elim
        · subst dollar
          obtain ⟨plainRest, literal⟩ := ihDollar word words next scanned (by
            rw [kept]
            simp only [weight, pending, Lexer.letters]
            omega)
          exact ⟨by simp [isPlainText, isPlainLetter, isBlank, isOperator, literal, plainRest],
            by simp⟩
        · exact (loses _ (by simp [start]) scanned kept).elim
        · obtain ⟨plainRest, _⟩ := ihBare _ words next scanned (by
            have pushed := letters_push ⟨.bare, word, words⟩ letter
            change weight next = ((⟨.bare, word, words⟩ : Lexer).push letter).letters + rest.length
            omega)
          exact ⟨by simp [isPlainText, isPlainLetter, blank, operator, single, double, escape, dollar,
            plainRest], fun same empty => comment ⟨by simpa using same, empty⟩⟩
      refine ⟨bare, fun word words next scanned kept => ?_⟩
      by_cases expands : startsExpansion letter = true
      · rw [scan_cons] at scanned
        obtain ⟨middle, fed, scanned⟩ := Option.bind_eq_some_iff.mp scanned
        rw [List.length_cons] at kept
        have start : weight ⟨.dollar false, word, words⟩ =
          (⟨.dollar false, word, words⟩ : Lexer).letters + 1 := rfl
        simp only [feed, feedDollar] at fed
        split_ifs at fed with named special opens
        · cases fed
          exact (loses _ (by simp [start]) scanned kept).elim
        · cases fed
          exact (loses _ (by simp [weight_expand_unset, start]) scanned kept).elim
        · simp [startsExpansion, named, special, opens] at expands
      · have literal : startsExpansion letter = false := by simpa using expands
        rw [scan_cons, feed_dollar unset literal, ← scan_cons] at scanned
        have plain := bare _ words next scanned (by
          rw [kept]
          simp only [weight, pending, Lexer.letters, Option.getD_some, List.length_append,
            List.length_singleton]
          omega)
        exact ⟨plain.1, literal⟩

section

variable (env : List Char → List Char)

def Writes (text word : List Char) : Prop :=
  ∀ words, scan env ⟨.bare, none, words⟩ text = some ⟨.bare, some word, words⟩

theorem Writes.scan_blank {text word : List Char} (writes : Writes env text word)
    (words : List (List Char)) (rest : List Char) :
    scan env ⟨.bare, none, words⟩ (text ++ ' ' :: rest) =
      scan env ⟨.bare, none, words ++ [word]⟩ rest := by
  rw [scan_append, writes words]
  simp [feed, feedBare, isBlank, Lexer.cut, Lexer.enter]

variable {ι : Type} (text word : ι → List Char) {items : List ι}

theorem scan_written (writes : ∀ item ∈ items, Writes env (text item) (word item))
    (words : List (List Char)) (last : List Char) :
    scan env ⟨.bare, none, words⟩ ([' '].intercalate (items.map text ++ [last])) =
      scan env ⟨.bare, none, words ++ items.map word⟩ last := by
  induction items generalizing words with
  | nil => simp
  | cons item rest ih =>
      have others := ih (fun other member => writes other (List.mem_cons_of_mem _ member))
        (words ++ [word item])
      rw [List.map_cons, List.cons_append, List.intercalate_cons_of_ne_nil (by simp),
        List.append_assoc, List.singleton_append, (writes item (by simp)).scan_blank, others]
      simp

/-- Words that are written one by one are read as these words. -/
theorem read_written (writes : ∀ item ∈ items, Writes env (text item) (word item)) :
    (scan env ⟨.bare, none, []⟩ ([' '].intercalate (items.map text))).bind (finish env) =
      some (items.map word) := by
  induction items using List.reverseRecOn with
  | nil => simp [finish, Lexer.cut]
  | append_singleton items last _ =>
      have earlier := scan_written env text word
        (fun item member => writes item (List.mem_append_left _ member)) [] (text last)
      rw [List.map_append, List.map_singleton, earlier, writes last (by simp)]
      simp [finish, Lexer.cut]

theorem read_plain (writes : ∀ item ∈ items, Writes env (text item) (word item)) {last : List Char}
    (plain : isPlainWord last = true) :
    (scan env ⟨.bare, none, []⟩ ([' '].intercalate (items.map text ++ [last]))).bind (finish env) =
      some (items.map word ++ [last]) := by
  simp only [isPlainWord, Bool.and_eq_true, Bool.not_eq_true', decide_eq_true_eq,
    List.isEmpty_eq_false_iff] at plain
  obtain ⟨⟨nonempty, notComment⟩, plain⟩ := plain
  obtain ⟨lexer, scanned, finished⟩ := (scan_plain env last plain).1 none (items.map word)
    (fun comment => absurd comment notComment) (fun empty => absurd empty nonempty)
  rw [scan_written env text word writes, List.nil_append, scanned]
  simpa using finished

end

section

variable {ι : Type} (text word : ι → List Char) {items : List ι}

theorem plain_of_read (writes : ∀ item ∈ items, Writes unset (text item) (word item))
    {last : List Char}
    (faithful : (scan unset ⟨.bare, none, []⟩ ([' '].intercalate (items.map text ++ [last]))).bind
      (finish unset) = some (items.map word ++ [last])) : isPlainWord last = true := by
  rw [scan_written unset text word writes, List.nil_append] at faithful
  obtain ⟨next, scanned, finished⟩ := Option.bind_eq_some_iff.mp faithful
  have lower := finish_le finished
  have upper := weight_scan scanned
  have start : weight ⟨.bare, none, items.map word⟩ = ((items.map word).map List.length).sum := by
    simp [weight, Lexer.letters]
  have total : ((items.map word ++ [last]).map List.length).sum =
      ((items.map word).map List.length).sum + last.length := by simp
  obtain ⟨plain, notComment⟩ := (plain_of_weight last).1 none _ next scanned (by omega)
  have nonempty : last ≠ [] := by
    rintro rfl
    cases scanned
    simp [finish, Lexer.cut] at finished
  have ordinary : last.head? ≠ some '#' := fun comment => notComment comment rfl
  simp [isPlainWord, plain, nonempty, ordinary]

end

end EmuChef.Shell
