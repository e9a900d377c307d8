import EmuChef.Artifact.SourceUrl
import EmuChef.Artifact.Utf8Law

/-! When the names and paths derived from URLs are decoded exactly, and when deriving them panics. -/

namespace EmuChef.Artifact

open Split (stripLead)

def exactDecodeBytes : List Char → List UInt8
  | [] => []
  | '%' :: first :: second :: rest =>
      match hexDigit first, hexDigit second with
      | some high, some low => UInt8.ofNat (16 * high + low) :: exactDecodeBytes rest
      | _, _ => 0x25 :: exactDecodeBytes (first :: second :: rest)
  | letter :: rest => String.utf8EncodeChar letter ++ exactDecodeBytes rest

def exactDecode (text : List Char) : String := String.ofList (fromUtf8Lossy (exactDecodeBytes text))

def splitsCharacter : List Char → Bool
  | [] => false
  | [last] => 3 ≤ last.utf8Size
  | first :: second :: _ => 3 ≤ first.utf8Size || (first.utf8Size = 1 && 2 ≤ second.utf8Size)

def readsPlus : List Char → Bool
  | first :: second :: _ => first = '+' && (hexDigit second).isSome
  | _ => false

def AfterPercent (text after : List Char) : Prop := ∃ before, text = before ++ '%' :: after

def SplitsCharacter (text : List Char) : Prop :=
  ∃ after, AfterPercent text after ∧ splitsCharacter after = true

def ReadsPlus (text : List Char) : Prop :=
  ∃ after, AfterPercent text after ∧ readsPlus after = true

variable {letter : Char}

theorem afterPercent_cons {text after : List Char} : AfterPercent (letter :: text) after ↔
      (letter = '%' ∧ text = after) ∨ AfterPercent text after := by
  constructor
  · rintro ⟨before, whole⟩
    cases before with
    | nil => exact Or.inl (by simpa using whole)
    | cons first before =>
        refine Or.inr ⟨before, ?_⟩
        exact (List.cons.inj whole).2
  · rintro (⟨rfl, rfl⟩ | ⟨before, rfl⟩)
    · exact ⟨[], rfl⟩
    · exact ⟨letter :: before, rfl⟩

theorem not_afterPercent_nil {after : List Char} : ¬ AfterPercent [] after := by
  rintro ⟨before, whole⟩
  cases before <;> cases whole

variable {text : List Char}

theorem splitsCharacter_cons : SplitsCharacter (letter :: text) ↔
    (letter = '%' ∧ splitsCharacter text = true) ∨ SplitsCharacter text := by
  simp only [SplitsCharacter, afterPercent_cons]
  constructor
  · rintro ⟨after, ⟨rfl, rfl⟩ | later, splits⟩
    · exact Or.inl ⟨rfl, splits⟩
    · exact Or.inr ⟨after, later, splits⟩
  · rintro (⟨rfl, splits⟩ | ⟨after, later, splits⟩)
    · exact ⟨text, Or.inl ⟨rfl, rfl⟩, splits⟩
    · exact ⟨after, Or.inr later, splits⟩

theorem readsPlus_cons : ReadsPlus (letter :: text) ↔
    (letter = '%' ∧ readsPlus text = true) ∨ ReadsPlus text := by
  simp only [ReadsPlus, afterPercent_cons]
  constructor
  · rintro ⟨after, ⟨rfl, rfl⟩ | later, reads⟩
    · exact Or.inl ⟨rfl, reads⟩
    · exact Or.inr ⟨after, later, reads⟩
  · rintro (⟨rfl, reads⟩ | ⟨after, later, reads⟩)
    · exact ⟨text, Or.inl ⟨rfl, rfl⟩, reads⟩
    · exact ⟨after, Or.inr later, reads⟩

theorem not_splitsCharacter_nil : ¬ SplitsCharacter [] := by
  rintro ⟨after, later, _⟩
  exact not_afterPercent_nil later

theorem not_readsPlus_nil : ¬ ReadsPlus [] := by
  rintro ⟨after, later, _⟩
  exact not_afterPercent_nil later

theorem hexDigit_some {value : Nat} (read : hexDigit letter = some value) :
    letter.utf8Size = 1 ∧ letter ≠ '%' ∧ value < 16 := by
  have narrow : letter.toNat < 128 := by
    simp only [hexDigit] at read
    split_ifs at read with digit lower upper
    · exact lt_of_le_of_lt (show letter.toNat ≤ 57 from digit.2) (by decide)
    · exact lt_of_le_of_lt (show letter.toNat ≤ 102 from lower.2) (by decide)
    · exact lt_of_le_of_lt (show letter.toNat ≤ 70 from upper.2) (by decide)
  have listed : ∀ code < 128, ∀ value, hexDigit (Char.ofNat code) = some value →
      (Char.ofNat code).utf8Size = 1 ∧ Char.ofNat code ≠ '%' ∧ value < 16 := by
    intro code bound value read
    have all : ∀ code < 128, (hexDigit (Char.ofNat code)).all (fun value =>
        (Char.ofNat code).utf8Size = 1 ∧ Char.ofNat code ≠ '%' ∧ value < 16) = true := by
      decide +kernel
    have found := all code bound
    rw [read] at found
    simpa using found
  have found := listed letter.toNat narrow value
  rw [Char.ofNat_toNat] at found
  exact found read

def countPercent (bytes : List UInt8) : Nat := bytes.countP fun byte => byte.toNat = 37

/-- What decoding a text comes to: a panic, the exact bytes, or bytes with fewer percent signs. -/
inductive Outcome (text : List Char) : Option (List UInt8) → Prop
  | panics : SplitsCharacter text → Outcome text none
  | exact : ¬ SplitsCharacter text → ¬ ReadsPlus text → Outcome text (some (exactDecodeBytes text))
  | loses {bytes} : ¬ SplitsCharacter text → ReadsPlus text →
      countPercent bytes < countPercent (exactDecodeBytes text) → Outcome text (some bytes)

theorem Outcome.extend {text longer : List Char} {lead : List UInt8} {result : Option (List UInt8)}
    (splits : SplitsCharacter longer ↔ SplitsCharacter text)
    (reads : ReadsPlus longer ↔ ReadsPlus text)
    (decoded : exactDecodeBytes longer = lead ++ exactDecodeBytes text)
    (outcome : Outcome text result) : Outcome longer (result.map (lead ++ ·)) := by
  cases outcome with
  | panics split => exact .panics (splits.mpr split)
  | exact unsplit unread =>
      rw [Option.map_some, ← decoded]
      exact .exact (mt splits.mp unsplit) (mt reads.mp unread)
  | loses unsplit read fewer =>
      refine .loses (mt splits.mp unsplit) (reads.mpr read) ?_
      rw [decoded, countPercent, countPercent, List.countP_append, List.countP_append]
      exact Nat.add_lt_add_left fewer _

theorem Outcome.count_le {bytes : List UInt8} (outcome : Outcome text (some bytes)) :
    countPercent bytes ≤ countPercent (exactDecodeBytes text) := by
  cases outcome with
  | exact _ _ => exact le_rfl
  | loses _ _ fewer => exact le_of_lt fewer

theorem exactDecodeBytes_literal {first second : Char} {rest : List Char}
    (digits : hexDigit first = none ∨ hexDigit second = none) :
    exactDecodeBytes ('%' :: first :: second :: rest) =
      [0x25] ++ exactDecodeBytes (first :: second :: rest) := by
  rw [exactDecodeBytes]
  rcases digits with absent | absent
  · rw [absent]
    rfl
  · rw [absent]
    cases hexDigit first <;> rfl

theorem exactDecodeBytes_cons {rest : List Char} (plain : letter ≠ '%') :
    exactDecodeBytes (letter :: rest) = String.utf8EncodeChar letter ++ exactDecodeBytes rest := by
  rw [exactDecodeBytes]
  rintro _ _ _ rfl _
  exact plain rfl

theorem hexByte_eq_none {first second : Char} (unread : hexByte first second = none) :
    (hexDigit first = none ∨ hexDigit second = none) ∧
      readsPlus (first :: second :: []) = false := by
  unfold hexByte at unread
  by_cases plus : first = '+'
  · rw [if_pos plus, Option.map_eq_none_iff] at unread
    refine ⟨Or.inr unread, ?_⟩
    simp [readsPlus, unread]
  · rw [if_neg plus] at unread
    refine ⟨?_, by simp [readsPlus, plus]⟩
    cases high : hexDigit first with
    | none => exact Or.inl rfl
    | some value =>
        rw [high, Option.bind_some, Option.map_eq_none_iff] at unread
        exact Or.inr unread

theorem hexByte_eq_some {first second : Char} {byte : UInt8}
    (read : hexByte first second = some byte) :
    (first = '+' ∧ ∃ value < 16, hexDigit second = some value ∧ byte = UInt8.ofNat value) ∨
      (first ≠ '+' ∧ ∃ high low, hexDigit first = some high ∧ hexDigit second = some low ∧
        byte = UInt8.ofNat (16 * high + low)) := by
  unfold hexByte at read
  by_cases plus : first = '+'
  · rw [if_pos plus, Option.map_eq_some_iff] at read
    obtain ⟨value, digit, rfl⟩ := read
    exact Or.inl ⟨plus, value, (hexDigit_some digit).2.2, digit, rfl⟩
  · rw [if_neg plus, Option.bind_eq_some_iff] at read
    obtain ⟨high, first', mapped⟩ := read
    obtain ⟨low, second', rfl⟩ := Option.map_eq_some_iff.mp mapped
    exact Or.inr ⟨plus, high, low, first', second', rfl⟩

theorem outcome_plus {second : Char} {rest : List Char} {value : Nat} (small : value < 16)
    (digit : hexDigit second = some value) {result : Option (List UInt8)}
    (outcome : Outcome rest result) :
    Outcome ('%' :: '+' :: second :: rest) (result.map (UInt8.ofNat value :: ·)) := by
  obtain ⟨narrow, plain, _⟩ := hexDigit_some digit
  have splits : SplitsCharacter ('%' :: '+' :: second :: rest) ↔ SplitsCharacter rest := by
    rw [splitsCharacter_cons, splitsCharacter_cons, splitsCharacter_cons]
    simp [splitsCharacter, narrow, plain, show ('+' : Char).utf8Size = 1 from rfl]
  have reads : ReadsPlus ('%' :: '+' :: second :: rest) := by
    rw [readsPlus_cons]
    exact Or.inl ⟨rfl, by simp [readsPlus, digit]⟩
  have decoded : exactDecodeBytes ('%' :: '+' :: second :: rest) =
      [0x25, 0x2b] ++ (String.utf8EncodeChar second ++ exactDecodeBytes rest) := by
    rw [exactDecodeBytes_literal (Or.inl (by decide)), exactDecodeBytes_cons (by decide),
      exactDecodeBytes_cons plain]
    rfl
  cases result with
  | none =>
      cases outcome with
      | panics split => exact .panics (splits.mpr split)
  | some bytes =>
      refine .loses ?_ reads ?_
      · rw [splits]
        cases outcome with
        | exact unsplit _ => exact unsplit
        | loses unsplit _ _ => exact unsplit
      · have fewer := outcome.count_le
        have byte : (UInt8.ofNat value).toNat = value := toNat_ofNat_byte (by omega)
        have kept : countPercent (UInt8.ofNat value :: bytes) = countPercent bytes := by
          rw [countPercent, List.countP_cons_of_neg]
          · rfl
          · rw [byte, decide_eq_true_eq]
            omega
        have more : countPercent (exactDecodeBytes ('%' :: '+' :: second :: rest)) =
            1 + (countPercent (String.utf8EncodeChar second) +
              countPercent (exactDecodeBytes rest)) := by
          rw [decoded, countPercent, List.countP_append, List.countP_append]
          rfl
        change countPercent (UInt8.ofNat value :: bytes) < _
        rw [kept, more]
        omega

theorem percentDecodeBytes_outcome (text : List Char) : Outcome text (percentDecodeBytes text) := by
  fun_induction percentDecodeBytes text with
  | case1 => exact .exact not_splitsCharacter_nil not_readsPlus_nil
  | case2 first second rest one narrow byte read ih =>
      rcases hexByte_eq_some read with ⟨rfl, value, small, digit, rfl⟩ | ⟨plus, high, low, highDigit,
        lowDigit, rfl⟩
      · exact outcome_plus small digit ih
      · obtain ⟨_, firstPlain, _⟩ := hexDigit_some highDigit
        obtain ⟨_, secondPlain, _⟩ := hexDigit_some lowDigit
        refine @Outcome.extend rest _ [UInt8.ofNat (16 * high + low)] _ ?_ ?_ ?_ ih
        · rw [splitsCharacter_cons, splitsCharacter_cons, splitsCharacter_cons]
          simp [splitsCharacter, one, narrow, firstPlain, secondPlain]
        · rw [readsPlus_cons, readsPlus_cons, readsPlus_cons]
          simp [readsPlus, plus, firstPlain, secondPlain]
        · rw [exactDecodeBytes, highDigit, lowDigit]
          rfl
  | case3 first second rest one narrow unread ih =>
      obtain ⟨digits, unplussed⟩ := hexByte_eq_none unread
      have unplussedHere : readsPlus (first :: second :: rest) = false := unplussed
      refine Outcome.extend ?_ ?_ (exactDecodeBytes_literal digits) ih
      · rw [@splitsCharacter_cons '%']
        simp [splitsCharacter, one, narrow]
      · rw [@readsPlus_cons '%']
        simp [unplussedHere]
  | case4 first second rest one wide =>
      refine .panics ?_
      rw [splitsCharacter_cons]
      have positive := second.utf8Size_pos
      have atLeast : 2 ≤ second.utf8Size := by omega
      exact Or.inl ⟨rfl, by simp [splitsCharacter, one, atLeast]⟩
  | case5 first second rest notOne two ih =>
      refine Outcome.extend ?_ ?_ (exactDecodeBytes_literal (Or.inl ?_)) ih
      · rw [@splitsCharacter_cons '%']
        simp [splitsCharacter, two]
      · rw [@readsPlus_cons '%']
        have notPlus : first ≠ '+' := by
          rintro rfl
          exact notOne rfl
        simp [readsPlus, notPlus]
      · cases digit : hexDigit first with
        | none => rfl
        | some value => exact absurd (hexDigit_some digit).1 notOne
  | case6 first second rest notOne notTwo =>
      refine .panics ?_
      rw [splitsCharacter_cons]
      have positive := first.utf8Size_pos
      have atLeast : 3 ≤ first.utf8Size := by omega
      exact Or.inl ⟨rfl, by simp [splitsCharacter, atLeast]⟩
  | case7 last narrow =>
      have decoded : exactDecodeBytes ['%', last] = 0x25 :: String.utf8EncodeChar last := by
        by_cases percent : last = '%'
        · subst percent
          rfl
        · change [0x25] ++ exactDecodeBytes [last] = _
          rw [exactDecodeBytes_cons percent]
          exact congrArg _ (List.append_nil _)
      rw [← decoded]
      refine .exact ?_ ?_
      · rw [splitsCharacter_cons, splitsCharacter_cons]
        have notWide : ¬ 3 ≤ last.utf8Size := by omega
        simp [splitsCharacter, notWide, not_splitsCharacter_nil]
      · rw [readsPlus_cons, readsPlus_cons]
        simp [readsPlus, not_readsPlus_nil]
  | case8 last wide =>
      refine .panics ?_
      rw [splitsCharacter_cons]
      have atLeast : 3 ≤ last.utf8Size := by omega
      exact Or.inl ⟨rfl, by simp [splitsCharacter, atLeast]⟩
  | case9 letter rest notTriple notPair ih =>
      by_cases percent : letter = '%'
      · subst percent
        cases rest with
        | nil =>
            refine .exact ?_ ?_
            · simp [splitsCharacter_cons, splitsCharacter, not_splitsCharacter_nil]
            · simp [readsPlus_cons, readsPlus, not_readsPlus_nil]
        | cons first rest =>
            cases rest with
            | nil => exact absurd rfl (notPair first rfl)
            | cons second rest => exact absurd rfl (notTriple first second rest rfl)
      · refine Outcome.extend ?_ ?_ (exactDecodeBytes_cons percent) ih
        · rw [@splitsCharacter_cons letter]
          simp [percent]
        · rw [@readsPlus_cons letter]
          simp [percent]

theorem percentDecode_eq_none_iff : percentDecode text = none ↔ SplitsCharacter text := by
  have outcome := percentDecodeBytes_outcome text
  rw [percentDecode, Option.map_eq_none_iff]
  constructor
  · intro failed
    rw [failed] at outcome
    cases outcome with
    | panics split => exact split
  · intro split
    cases result : percentDecodeBytes text with
    | none => rfl
    | some bytes =>
        rw [result] at outcome
        cases outcome with
        | exact unsplit _ => exact absurd split unsplit
        | loses unsplit _ _ => exact absurd split unsplit

theorem percentDecode_exact_iff :
    percentDecode text = some (exactDecode text) ↔ ¬ SplitsCharacter text ∧ ¬ ReadsPlus text := by
  have outcome := percentDecodeBytes_outcome text
  rw [percentDecode]
  cases result : percentDecodeBytes text with
  | none =>
      rw [result] at outcome
      cases outcome with
      | panics split => simp [split]
  | some bytes =>
      rw [result] at outcome
      cases outcome with
      | exact unsplit unread => simp [unsplit, unread, exactDecode]
      | loses unsplit read fewer =>
          refine iff_of_false ?_ fun exact => exact.2 read
          intro same
          have texts : fromUtf8Lossy bytes = fromUtf8Lossy (exactDecodeBytes text) :=
            String.ofList_injective (Option.some.inj same)
          have counts := count_percent_lossy bytes
          rw [texts, count_percent_lossy] at counts
          rw [countPercent, countPercent] at fewer
          omega

def digitLetter (upper : Bool) (digit : Nat) : Char :=
  if upper then (hexLetter digit).toUpper else hexLetter digit

def encodeByte (upper : Bool) (byte : UInt8) : List Char :=
  ['%', digitLetter upper (byte.toNat / 16), digitLetter upper (byte.toNat % 16)]

def percentEncodeChar (upper : Bool) (keep : Char → Bool) (letter : Char) : List Char :=
  if keep letter = true ∧ letter ≠ '%' then [letter]
  else (String.utf8EncodeChar letter).flatMap (encodeByte upper)

def percentEncode (upper : Bool) (keep : Char → Bool) (text : List Char) : List Char :=
  text.flatMap (percentEncodeChar upper keep)

theorem hexDigit_digitLetter : ∀ upper, ∀ digit < 16,
    hexDigit (digitLetter upper digit) = some digit ∧
      (digitLetter upper digit).utf8Size = 1 ∧ digitLetter upper digit ≠ '+' := by
  decide

theorem percentDecodeBytes_byte (upper : Bool) (byte : UInt8) (rest : List Char) :
    percentDecodeBytes (encodeByte upper byte ++ rest) =
      (percentDecodeBytes rest).map (byte :: ·) := by
  have bound := byte.toNat_lt
  obtain ⟨high, highNarrow, notPlus⟩ := hexDigit_digitLetter upper (byte.toNat / 16) (by omega)
  obtain ⟨low, lowNarrow, _⟩ := hexDigit_digitLetter upper (byte.toNat % 16) (by omega)
  have value : UInt8.ofNat (16 * (byte.toNat / 16) + byte.toNat % 16) = byte := by
    rw [Nat.div_add_mod, UInt8.ofNat_toNat]
  have read : hexByte (digitLetter upper (byte.toNat / 16)) (digitLetter upper (byte.toNat % 16)) =
      some byte := by
    unfold hexByte
    rw [if_neg notPlus, high, low, Option.bind_some, Option.map_some, value]
  rw [encodeByte, List.cons_append, List.cons_append, List.cons_append, List.nil_append,
    percentDecodeBytes, if_pos highNarrow, if_pos lowNarrow, read]

theorem percentDecodeBytes_bytes (upper : Bool) (bytes : List UInt8) (rest : List Char) :
    percentDecodeBytes (bytes.flatMap (encodeByte upper) ++ rest) =
      (percentDecodeBytes rest).map (bytes ++ ·) := by
  induction bytes with
  | nil => simp
  | cons byte bytes ih =>
      rw [List.flatMap_cons, List.append_assoc, percentDecodeBytes_byte, ih, Option.map_map]
      rfl

theorem percentDecodeBytes_plain (plain : letter ≠ '%') (rest : List Char) :
    percentDecodeBytes (letter :: rest) =
      (percentDecodeBytes rest).map (String.utf8EncodeChar letter ++ ·) := by
  rw [percentDecodeBytes]
  · rintro _ _ _ rfl _
    exact plain rfl
  · rintro _ rfl _
    exact plain rfl

theorem percentDecodeBytes_encode (upper : Bool) (keep : Char → Bool) (text : List Char) :
    percentDecodeBytes (percentEncode upper keep text) = some (textBytes text) := by
  induction text with
  | nil => rfl
  | cons letter text ih =>
      rw [percentEncode, List.flatMap_cons, textBytes, List.flatMap_cons, percentEncodeChar]
      rw [percentEncode, textBytes] at ih
      by_cases kept : keep letter = true ∧ letter ≠ '%'
      · rw [if_pos kept, List.singleton_append, percentDecodeBytes_plain kept.2, ih]
        rfl
      · rw [if_neg kept, percentDecodeBytes_bytes, ih]
        rfl

theorem percentDecode_encode (upper : Bool) (keep : Char → Bool) (text : List Char) :
    percentDecode (percentEncode upper keep text) = some (String.ofList text) := by
  rw [percentDecode, percentDecodeBytes_encode, Option.map_some, fromUtf8Lossy_textBytes]

section

def filenamePart (url : String) : Option (List Char) :=
  ((urlPath url).splitOn '/').reverse.find? (· ≠ [])

def rootedPart (rest : List Char) : List Char :=
  if rest.head? = some '/' then rest else rest.dropWhile (· ≠ '/')

def filePathPart (url : String) : Option (List Char) :=
  (stripLead "file://".toList url.toList).bind fun rest =>
    if rootedPart rest = [] then none else some (rootedPart rest)

def exactFilename (artifactId url : String) : String :=
  match filenamePart url with
  | some part => exactDecode part
  | none => String.ofList ((artifactId.toList.splitOn '/').getLastD artifactId.toList) ++ ".bin"

def exactLocalFilename (sha256 : List UInt8 → List UInt8) (artifactId url cache : String) : String :=
  urlDigest sha256 (if cache = "default" then url else artifactId ++ url) ++ "-" ++
    exactFilename artifactId url

def decodedTexts (url : String) : List (List Char) :=
  (filenamePart url).toList ++ (filePathPart url).toList

variable (sha256 : List UInt8 → List UInt8) (artifactId url cache : String)

structure DerivesWithoutPanic : Prop where
  filename : artifactFilename artifactId url ≠ none
  localFilename : artifactLocalFilename sha256 artifactId url cache ≠ none
  path : fileUrlToPath url ≠ .error .panicked

structure DerivesExactly : Prop where
  filename : artifactFilename artifactId url = some (exactFilename artifactId url)
  localFilename : artifactLocalFilename sha256 artifactId url cache =
    some (exactLocalFilename sha256 artifactId url cache)
  path : fileUrlToPath url = .ok ((filePathPart url).map exactDecode)

variable {sha256 artifactId url cache}

theorem artifactFilename_eq_none_iff : artifactFilename artifactId url = none ↔
    ∃ part, filenamePart url = some part ∧ SplitsCharacter part := by
  unfold artifactFilename filenamePart
  cases found : ((urlPath url).splitOn '/').reverse.find? (· ≠ []) with
  | none => simp
  | some part =>
      change percentDecode part = none ↔ _
      rw [percentDecode_eq_none_iff]
      simp

theorem artifactFilename_exact_iff :
    artifactFilename artifactId url = some (exactFilename artifactId url) ↔
      ∀ part, filenamePart url = some part → ¬ SplitsCharacter part ∧ ¬ ReadsPlus part := by
  unfold artifactFilename exactFilename filenamePart
  cases found : ((urlPath url).splitOn '/').reverse.find? (· ≠ []) with
  | none => simp
  | some part =>
      change percentDecode part = some (exactDecode part) ↔ _
      rw [percentDecode_exact_iff]
      simp

theorem fileUrlToPath_none (absent : filePathPart url = none) : fileUrlToPath url = .ok none := by
  unfold fileUrlToPath
  unfold filePathPart at absent
  cases stripped : stripLead "file://".toList url.toList with
  | none => rfl
  | some rest =>
      rw [stripped, Option.bind_some] at absent
      split_ifs at absent with empty
      change (if rootedPart rest = [] then _ else _) = _
      rw [if_pos empty]

theorem fileUrlToPath_some {path : List Char} (found : filePathPart url = some path) :
    (percentDecode path = none → fileUrlToPath url = .error .panicked) ∧
      ∀ decoded, percentDecode path = some decoded → fileUrlToPath url = .ok (some decoded) := by
  unfold fileUrlToPath
  unfold filePathPart at found
  cases stripped : stripLead "file://".toList url.toList with
  | none =>
      rw [stripped] at found
      cases found
  | some rest =>
      rw [stripped, Option.bind_some] at found
      split_ifs at found with empty
      cases found
      refine ⟨fun failed => ?_, fun decoded read => ?_⟩
      · change (if rootedPart rest = [] then _ else _) = _
        rw [rootedPart] at failed
        rw [if_neg empty, failed]
      · change (if rootedPart rest = [] then _ else _) = _
        rw [rootedPart] at read
        rw [if_neg empty, read]

theorem fileUrlToPath_panics_iff : fileUrlToPath url = .error .panicked ↔
    ∃ path, filePathPart url = some path ∧ SplitsCharacter path := by
  cases found : filePathPart url with
  | none => simp [fileUrlToPath_none found]
  | some path =>
      obtain ⟨panics, decodes⟩ := fileUrlToPath_some found
      have splits := @percentDecode_eq_none_iff path
      cases result : percentDecode path with
      | none => simp [panics result, ← splits, result]
      | some decoded => simp [decodes decoded result, ← splits, result]

theorem fileUrlToPath_exact_iff :
    fileUrlToPath url = .ok ((filePathPart url).map exactDecode) ↔
      ∀ path, filePathPart url = some path → ¬ SplitsCharacter path ∧ ¬ ReadsPlus path := by
  cases found : filePathPart url with
  | none => simp [fileUrlToPath_none found]
  | some path =>
      obtain ⟨panics, decodes⟩ := fileUrlToPath_some found
      have exact := @percentDecode_exact_iff path
      cases result : percentDecode path with
      | none =>
          rw [result] at exact
          simp [panics result, ← exact]
      | some decoded =>
          rw [result] at exact
          simp [decodes decoded result, ← exact]

theorem mem_decodedTexts {part : List Char} : part ∈ decodedTexts url ↔
    filenamePart url = some part ∨ filePathPart url = some part := by
  rw [decodedTexts, List.mem_append, Option.mem_toList, Option.mem_toList]

variable (sha256 artifactId url cache)

theorem derivesWithoutPanic_iff : DerivesWithoutPanic sha256 artifactId url cache ↔
    ∀ part ∈ decodedTexts url, ¬ SplitsCharacter part := by
  constructor
  · rintro ⟨filename, _, path⟩ part member split
    rcases mem_decodedTexts.mp member with found | found
    · exact filename (artifactFilename_eq_none_iff.mpr ⟨part, found, split⟩)
    · exact path (fileUrlToPath_panics_iff.mpr ⟨part, found, split⟩)
  · intro whole
    have named : artifactFilename artifactId url ≠ none := by
      intro failed
      obtain ⟨part, found, split⟩ := artifactFilename_eq_none_iff.mp failed
      exact whole part (mem_decodedTexts.mpr (Or.inl found)) split
    refine ⟨named, ?_, ?_⟩
    · rw [artifactLocalFilename, ne_eq, Option.map_eq_none_iff]
      exact named
    · intro failed
      obtain ⟨part, found, split⟩ := fileUrlToPath_panics_iff.mp failed
      exact whole part (mem_decodedTexts.mpr (Or.inr found)) split

theorem derivesExactly_iff : DerivesExactly sha256 artifactId url cache ↔
    ∀ part ∈ decodedTexts url, ¬ SplitsCharacter part ∧ ¬ ReadsPlus part := by
  constructor
  · rintro ⟨filename, _, path⟩ part member
    rcases mem_decodedTexts.mp member with found | found
    · exact artifactFilename_exact_iff.mp filename part found
    · exact fileUrlToPath_exact_iff.mp path part found
  · intro whole
    have named : artifactFilename artifactId url = some (exactFilename artifactId url) :=
      artifactFilename_exact_iff.mpr fun part found =>
        whole part (mem_decodedTexts.mpr (Or.inl found))
    refine ⟨named, ?_, ?_⟩
    · rw [artifactLocalFilename, named]
      rfl
    · exact fileUrlToPath_exact_iff.mpr fun part found =>
        whole part (mem_decodedTexts.mpr (Or.inr found))

/-- Decoding is exact where no percent sign stands before a character that its two bytes split or
before a plus sign and a digit, and it panics exactly at the former. -/
theorem decoding_iff (text : List Char) (upper : Bool) (keep : Char → Bool) :
    (DerivesWithoutPanic sha256 artifactId url cache ↔
        ∀ part ∈ decodedTexts url, ¬ SplitsCharacter part) ∧
      (DerivesExactly sha256 artifactId url cache ↔
        ∀ part ∈ decodedTexts url, ¬ SplitsCharacter part ∧ ¬ ReadsPlus part) ∧
      (percentDecode text = some (exactDecode text) ↔
        ¬ SplitsCharacter text ∧ ¬ ReadsPlus text) ∧
      percentDecode (percentEncode upper keep text) = some (String.ofList text) :=
  ⟨derivesWithoutPanic_iff sha256 artifactId url cache,
    derivesExactly_iff sha256 artifactId url cache, percentDecode_exact_iff,
    percentDecode_encode upper keep text⟩

/-- A percent sign before a wide character panics, and one before a plus sign and a digit is lost. -/
theorem not_decoding : artifactFilename "core/bios" "https://example.org/50%日.bin" = none ∧
    fileUrlToPath "file:///roms/1%0é" = .error .panicked ∧
    percentDecode "100%+1".toList ≠ some (exactDecode "100%+1".toList) := by
  decide +kernel

end

end EmuChef.Artifact
