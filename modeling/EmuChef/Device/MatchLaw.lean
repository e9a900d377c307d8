import EmuChef.Device.ProfileMatch
import Mathlib.Data.List.TakeWhile

/-! When the matcher, the collision test and the proposed profile agree on a device. -/

namespace EmuChef.DeviceProfile

open Executor (isWhitespace isAsciiLetter)
open Planner (trim)

variable (tables : CaseTables) (regex : RegexLibrary)

section

/-- Some token is contained in the fact, ignoring case; nothing is asked of an absent fact or where
there are no tokens. -/
def TokenCriterion (fact : Option String) (tokens : List String) : Prop :=
  ∀ value, fact = some value → tokens ≠ [] →
    ∃ token ∈ tokens, lowercase tables token <:+: lowercase tables value

def PatternCriterion (fact : Option String) (patterns : List String) : Prop :=
  ∀ value, fact = some value → patterns ≠ [] →
    ∃ pattern ∈ patterns, ∃ isMatch, regex.compile pattern = some isMatch ∧ isMatch value = true

def AtLeastMin (fact : Option Int) (range : Option AndroidVersionRange) : Prop :=
  ∀ version minimum, fact = some version →
    (range.bind fun criteria => criteria.min) = some minimum → minimum ≤ version

def AtMostMax (fact : Option Int) (range : Option AndroidVersionRange) : Prop :=
  ∀ version maximum, fact = some version →
    (range.bind fun criteria => criteria.max) = some maximum → version ≤ maximum

structure NamesMatch (criteria : DeviceMatchCriteria) (facts : DetectedDeviceFacts) : Prop where
  manufacturer : TokenCriterion tables facts.manufacturer criteria.manufacturerContains
  brand : TokenCriterion tables facts.brand criteria.brandContains
  model : PatternCriterion regex facts.model criteria.modelPatterns

structure CriteriaHold (criteria : DeviceMatchCriteria) (facts : DetectedDeviceFacts) : Prop where
  names : NamesMatch tables regex criteria facts
  atLeastMin : AtLeastMin facts.androidVersion criteria.androidVersion
  atMostMax : AtMostMax facts.androidVersion criteria.androidVersion

variable {tables regex}

theorem containsAny_eq_true {value : String} {tokens : List String} :
    containsAnyCaseInsensitive tables value tokens = true ↔
      ∃ token ∈ tokens, lowercase tables token <:+: lowercase tables value := by
  rw [containsAnyCaseInsensitive, List.any_eq_true]
  simp only [decide_eq_true_eq]

theorem anyPatternMatches_eq_true {value : String} {patterns : List String} :
    anyPatternMatches regex patterns value = true ↔ ∃ pattern ∈ patterns, ∃ isMatch,
      regex.compile pattern = some isMatch ∧ isMatch value = true := by
  rw [anyPatternMatches, List.any_eq_true]
  simp only [Option.any_eq_true]

end

section

variable {tables regex} {detectedFacts : DetectedDeviceFacts}
  {profileMatch : DeviceProfileMatchCriteria} {criteria : DeviceMatchCriteria}
  {result : ProfileMatchResult}

theorem record_matched (holds : Bool) (success failure : String) :
    (result.record holds success failure).matched = true ↔
      result.matched = true ∧ holds = true := by
  rw [ProfileMatchResult.record]
  cases holds <;> simp

theorem checkText_matched (label rejection : String) (holds : String → List String → Bool)
    (fact : Option String) (expected : List String) :
    (checkText label rejection holds fact expected result).matched = true ↔
      result.matched = true ∧
        ∀ value, fact = some value → expected ≠ [] → holds value expected = true := by
  cases fact with
  | none => simp [checkText]
  | some value =>
      rw [checkText]
      by_cases empty : expected = []
      · rw [if_pos empty]
        simp [empty]
      · rw [if_neg empty, record_matched]
        simp [empty]

theorem checkManufacturer_matched :
    (checkManufacturer tables detectedFacts profileMatch result).matched = true ↔
      result.matched = true ∧
        TokenCriterion tables detectedFacts.manufacturer profileMatch.manufacturerContains := by
  rw [checkManufacturer, checkText_matched]
  simp only [TokenCriterion, containsAny_eq_true]

theorem checkBrand_matched :
    (checkBrand tables detectedFacts profileMatch result).matched = true ↔
      result.matched = true ∧
        TokenCriterion tables detectedFacts.brand profileMatch.brandContains := by
  rw [checkBrand, checkText_matched]
  simp only [TokenCriterion, containsAny_eq_true]

theorem checkModel_matched :
    (checkModel regex detectedFacts profileMatch result).matched = true ↔
      result.matched = true ∧
        PatternCriterion regex detectedFacts.model profileMatch.modelPatterns := by
  rw [checkModel, checkText_matched]
  simp only [PatternCriterion, anyPatternMatches_eq_true]

theorem checkAndroidVersion_matched :
    (checkAndroidVersion detectedFacts (profileMatchCriteria criteria) result).matched = true ↔
      result.matched = true ∧
        AtLeastMin detectedFacts.androidVersion criteria.androidVersion := by
  have minimum : ((profileMatchCriteria criteria).androidVersion.bind fun range => range.min) =
      criteria.androidVersion.bind fun range => range.min := by
    cases range : criteria.androidVersion with
    | none => simp [profileMatchCriteria, range]
    | some authored => simp [profileMatchCriteria, range]
  rw [checkAndroidVersion, minimum]
  cases version : detectedFacts.androidVersion with
  | none => simp [AtLeastMin]
  | some version =>
      cases least : criteria.androidVersion.bind fun range => range.min with
      | none => simp [AtLeastMin, least]
      | some least' =>
          change (result.record _ _ _).matched = true ↔ _
          rw [record_matched, decide_eq_true_eq]
          simp [AtLeastMin, least]

theorem matched_iff : (matchDetectedDeviceProfile tables regex detectedFacts
      (profileMatchCriteria criteria)).matched = true ↔
    NamesMatch tables regex criteria detectedFacts ∧
      AtLeastMin detectedFacts.androidVersion criteria.androidVersion := by
  rw [matchDetectedDeviceProfile, checkAndroidVersion_matched, checkModel_matched,
    checkBrand_matched, checkManufacturer_matched]
  constructor
  · rintro ⟨⟨⟨⟨_, manufacturer⟩, brand⟩, model⟩, least⟩
    exact ⟨⟨manufacturer, brand, model⟩, least⟩
  · rintro ⟨⟨manufacturer, brand, model⟩, least⟩
    exact ⟨⟨⟨⟨rfl, manufacturer⟩, brand⟩, model⟩, least⟩

end

section

variable {tables regex} {facts : DetectedDeviceFacts} {profile : DeviceProfileV1}

theorem containsConstraintMatches_eq_true {expected : List String} {actual : Option String} :
    containsConstraintMatches tables expected actual = true ↔
      TokenCriterion tables actual expected ∧ (expected ≠ [] → actual ≠ none) := by
  unfold containsConstraintMatches
  by_cases empty : expected = []
  · rw [if_pos empty]
    simp [TokenCriterion, empty]
  · rw [if_neg empty]
    cases actual with
    | none => simp [empty]
    | some value =>
        change containsAnyCaseInsensitive tables value expected = true ↔ _
        rw [containsAny_eq_true]
        simp [TokenCriterion, empty]

theorem patternConstraintMatches_eq_true {patterns : List String} {actual : Option String} :
    patternConstraintMatches regex patterns actual = true ↔
      PatternCriterion regex actual patterns ∧ (patterns ≠ [] → actual ≠ none) := by
  unfold patternConstraintMatches
  by_cases empty : patterns = []
  · rw [if_pos empty]
    simp [PatternCriterion, empty]
  · rw [if_neg empty]
    cases actual with
    | none => simp [empty]
    | some value =>
        change anyPatternMatches regex patterns value = true ↔ _
        rw [anyPatternMatches_eq_true]
        simp [PatternCriterion, empty]

theorem profileMatchesFacts_iff : profileMatchesFacts tables regex profile facts = true ↔
    NamesMatch tables regex profile.matchCriteria facts ∧
      (profile.matchCriteria.manufacturerContains ≠ [] → facts.manufacturer ≠ none) ∧
      (profile.matchCriteria.brandContains ≠ [] → facts.brand ≠ none) ∧
      (profile.matchCriteria.modelPatterns ≠ [] → facts.model ≠ none) := by
  rw [profileMatchesFacts, Bool.and_eq_true, Bool.and_eq_true, containsConstraintMatches_eq_true,
    containsConstraintMatches_eq_true, patternConstraintMatches_eq_true]
  constructor
  · rintro ⟨⟨⟨manufacturer, hasManufacturer⟩, brand, hasBrand⟩, model, hasModel⟩
    exact ⟨⟨manufacturer, brand, model⟩, hasManufacturer, hasBrand, hasModel⟩
  · rintro ⟨⟨manufacturer, brand, model⟩, hasManufacturer, hasBrand, hasModel⟩
    exact ⟨⟨⟨manufacturer, hasManufacturer⟩, brand, hasBrand⟩, model, hasModel⟩

end

section

variable {tables regex} {facts : DetectedDeviceFacts}

def SpacesSeparate (tables : CaseTables) : Prop :=
  ∀ letter, isWhitespace letter = true →
    tables.cased letter = false ∧ tables.ignorable letter = false

theorem trim_surrounded (text : String) : ∃ lead trail : List Char,
    text.toList = lead ++ (trim text).toList ++ trail ∧
      (∀ letter ∈ lead, isWhitespace letter = true) ∧
      ∀ letter ∈ trail, isWhitespace letter = true := by
  let rest := text.toList.dropWhile isWhitespace
  refine ⟨text.toList.takeWhile isWhitespace, (rest.reverse.takeWhile isWhitespace).reverse, ?_,
    fun letter member => List.mem_takeWhile_imp member,
    fun letter member => List.mem_takeWhile_imp (List.mem_reverse.mp member)⟩
  have back : (rest.reverse.dropWhile isWhitespace).reverse ++
      (rest.reverse.takeWhile isWhitespace).reverse = rest := by
    rw [← List.reverse_append, List.takeWhile_append_dropWhile, List.reverse_reverse]
  rw [trim, String.toList_ofList, List.append_assoc, back, List.takeWhile_append_dropWhile]

theorem lowercase_trim_infix (spaces : SpacesSeparate tables) (text : String) :
    lowercase tables (trim text) <:+: lowercase tables text := by
  obtain ⟨lead, trail, whole, leading, trailing⟩ := trim_surrounded text
  have separatesLead : tables.Separates lead := fun letter member =>
    spaces letter (leading letter member)
  have separatesTrail : tables.Separates trail := fun letter member =>
    spaces letter (trailing letter member)
  have inside := CaseTables.lowercase_infix separatesLead separatesTrail (trim text).toList
  rw [← whole] at inside
  exact inside

theorem present_some {value : String} :
    present (some value) = if trim value = "" then none else some (trim value) := by
  by_cases blank : trim value = ""
  · simp [present, blank, Option.filter]
  · simp [present, blank, Option.filter]

theorem tokenCriterion_present (spaces : SpacesSeparate tables) (fact : Option String) :
    TokenCriterion tables fact (present fact).toList := by
  rintro value rfl filled
  rw [present_some] at filled ⊢
  by_cases blank : trim value = ""
  · rw [if_pos blank] at filled
    exact absurd rfl filled
  · rw [if_neg blank]
    exact ⟨trim value, List.mem_singleton_self _, lowercase_trim_infix spaces value⟩

def ModelKeepsItsPattern (regex : RegexLibrary) (facts : DetectedDeviceFacts) : Prop :=
  ∀ model, facts.model = some model → trim model = "" ∨
    (trim model = model ∧ (regex.compile (regex.anchored model)).isSome = true)

theorem patternCriterion_present (exactly : regex.EscapesExactly) :
    PatternCriterion regex facts.model ((present facts.model).map regex.anchored).toList ↔
      ModelKeepsItsPattern regex facts := by
  rw [PatternCriterion, ModelKeepsItsPattern]
  refine forall_congr' fun model => forall_congr' fun reported => ?_
  rw [reported, present_some]
  by_cases blank : trim model = ""
  · simp [blank]
  · rw [if_neg blank]
    simp only [Option.map_some, Option.toList_some, ne_eq, List.cons_ne_nil, not_false_eq_true,
      forall_const, List.mem_singleton, exists_eq_left, blank, false_or]
    constructor
    · rintro ⟨isMatch, compiled, matched⟩
      have same : model = trim model := (exactly (trim model) isMatch compiled model).mp matched
      refine ⟨same.symm, ?_⟩
      rw [← same] at compiled
      rw [compiled]
      rfl
    · rintro ⟨same, compiles⟩
      obtain ⟨isMatch, compiled⟩ := Option.isSome_iff_exists.mp compiles
      rw [same]
      exact ⟨isMatch, compiled, (exactly model isMatch compiled model).mpr rfl⟩

theorem proposed_namesMatch (spaces : SpacesSeparate tables) (exactly : regex.EscapesExactly) :
    NamesMatch tables regex (proposedProfile regex facts).matchCriteria facts ↔
      ModelKeepsItsPattern regex facts := by
  rw [← patternCriterion_present exactly]
  constructor
  · exact NamesMatch.model
  · intro model
    exact ⟨tokenCriterion_present spaces facts.manufacturer,
      tokenCriterion_present spaces facts.brand, model⟩

theorem proposed_atLeastMin :
    AtLeastMin facts.androidVersion (proposedProfile regex facts).matchCriteria.androidVersion := by
  intro version minimum reported least
  simp only [proposedProfile, reported, Option.map_some, Option.bind_some, Option.some.injEq] at least
  exact le_of_eq least.symm

theorem proposed_matched (spaces : SpacesSeparate tables) (exactly : regex.EscapesExactly) :
    (matchDetectedDeviceProfile tables regex facts
        (profileMatchCriteria (proposedProfile regex facts).matchCriteria)).matched = true ↔
      ModelKeepsItsPattern regex facts := by
  rw [matched_iff, proposed_namesMatch spaces exactly]
  exact and_iff_left proposed_atLeastMin

theorem proposed_collides (spaces : SpacesSeparate tables) (exactly : regex.EscapesExactly) :
    profileMatchesFacts tables regex (proposedProfile regex facts) facts = true ↔
      ModelKeepsItsPattern regex facts := by
  rw [profileMatchesFacts_iff, proposed_namesMatch spaces exactly]
  refine and_iff_left ⟨?_, ?_, ?_⟩
  · rintro filled absent
    exact filled (by simp [proposedProfile, absent, present])
  · rintro filled absent
    exact filled (by simp [proposedProfile, absent, present])
  · rintro filled absent
    exact filled (by simp [proposedProfile, absent, present])

end

section

/-- What the three copies of the matching rule owe a profile and the facts of a device. -/
structure MatchingAgrees (profile : DeviceProfileV1) (facts : DetectedDeviceFacts) : Prop where
  matched_iff : (matchDetectedDeviceProfile tables regex facts
      (profileMatchCriteria profile.matchCriteria)).matched = true ↔
    CriteriaHold tables regex profile.matchCriteria facts
  collision_iff : facts.manufacturer ≠ none → facts.brand ≠ none → facts.model ≠ none →
    (profileMatchesFacts tables regex profile facts = true ↔
      NamesMatch tables regex profile.matchCriteria facts)
  proposed_matched : (matchDetectedDeviceProfile tables regex facts
    (profileMatchCriteria (proposedProfile regex facts).matchCriteria)).matched = true
  proposed_collides : profileMatchesFacts tables regex (proposedProfile regex facts) facts = true

/-- The version is above the maximum of a profile whose other criteria all hold. -/
structure OnlyMaxFails (criteria : DeviceMatchCriteria) (facts : DetectedDeviceFacts) : Prop where
  names : NamesMatch tables regex criteria facts
  atLeastMin : AtLeastMin facts.androidVersion criteria.androidVersion
  exceeded : ¬ AtMostMax facts.androidVersion criteria.androidVersion

variable {tables regex}

theorem matched_exactly_iff {profile : DeviceProfileV1} {facts : DetectedDeviceFacts} :
    ((matchDetectedDeviceProfile tables regex facts
        (profileMatchCriteria profile.matchCriteria)).matched = true ↔
      CriteriaHold tables regex profile.matchCriteria facts) ↔
    ¬ OnlyMaxFails tables regex profile.matchCriteria facts := by
  rw [matched_iff]
  constructor
  · rintro same ⟨names, least, exceeded⟩
    exact exceeded (same.mp ⟨names, least⟩).atMostMax
  · intro none
    constructor
    · rintro ⟨names, least⟩
      exact ⟨names, least, by_contra fun exceeded => none ⟨names, least, exceeded⟩⟩
    · rintro ⟨names, least, _⟩
      exact ⟨names, least⟩

/-- The copies of the matching rule agree unless only the maximum version rules the profile out, or the
model changes under trimming or is no pattern. -/
theorem matchingAgrees_iff (spaces : SpacesSeparate tables) (exactly : regex.EscapesExactly)
    (profile : DeviceProfileV1) (facts : DetectedDeviceFacts) :
    MatchingAgrees tables regex profile facts ↔
      ¬ OnlyMaxFails tables regex profile.matchCriteria facts ∧
        ModelKeepsItsPattern regex facts := by
  constructor
  · intro agrees
    exact ⟨matched_exactly_iff.mp agrees.matched_iff,
      (proposed_matched spaces exactly).mp agrees.proposed_matched⟩
  · rintro ⟨within, keeps⟩
    refine ⟨matched_exactly_iff.mpr within, ?_, (proposed_matched spaces exactly).mpr keeps,
      (proposed_collides spaces exactly).mpr keeps⟩
    intro manufacturer brand model
    rw [profileMatchesFacts_iff]
    exact and_iff_left ⟨fun _ => manufacturer, fun _ => brand, fun _ => model⟩

end

def asciiTables : CaseTables :=
  { lower := fun letter => [letter.toLower]
    cased := isAsciiLetter
    ignorable := fun letter => letter = '.' || letter = ':' || letter = '^' }

theorem asciiTables_spacesSeparate : SpacesSeparate asciiTables := by
  intro letter blank
  have code : ∀ other : Char, isWhitespace other = false → letter ≠ other := by
    rintro other filled rfl
    rw [blank] at filled
    cases filled
  refine ⟨?_, by simp [asciiTables, code '.' rfl, code ':' rfl, code '^' rfl]⟩
  by_contra cased
  simp only [isWhitespace, Bool.or_eq_true, Bool.and_eq_true, decide_eq_true_eq] at blank
  simp only [asciiTables, isAsciiLetter, Executor.isAsciiLower, Bool.not_eq_false, Bool.or_eq_true,
    Bool.and_eq_true, decide_eq_true_eq] at cased
  rcases cased with ⟨least, most⟩ | ⟨least, most⟩
  · have lower : 97 ≤ letter.toNat := least
    have upper : letter.toNat ≤ 122 := most
    omega
  · have lower : 65 ≤ letter.toNat := least
    have upper : letter.toNat ≤ 90 := most
    omega

def isMetacharacter (letter : Char) : Bool := "\\.+*?()|[]\x7b\x7d^$#&-~".toList.contains letter

def escapeLetters (text : List Char) : List Char :=
  text.flatMap fun letter => if isMetacharacter letter then ['\\', letter] else [letter]

def readLiteral : List Char → Option (List Char)
  | [] => none
  | ['$'] => some []
  | '\\' :: letter :: rest =>
      if isMetacharacter letter then (readLiteral rest).map (letter :: ·) else none
  | letter :: rest =>
      if isMetacharacter letter then none else (readLiteral rest).map (letter :: ·)

theorem readLiteral_escape (text : List Char) :
    readLiteral (escapeLetters text ++ ['$']) = some text := by
  induction text with
  | nil => rfl
  | cons letter text ih =>
      rw [escapeLetters, List.flatMap_cons, List.append_assoc]
      change readLiteral (_ ++ (escapeLetters text ++ ['$'])) = _
      by_cases special : isMetacharacter letter = true
      · rw [if_pos special, List.cons_append, List.cons_append, List.nil_append, readLiteral,
          if_pos special, ih]
        rfl
      · have notSlash : letter ≠ '\\' := by
          rintro rfl
          exact special (by decide)
        have notEnd : letter ≠ '$' := by
          rintro rfl
          exact special (by decide)
        rw [if_neg special, List.cons_append, List.nil_append, readLiteral, if_neg special, ih]
        · rfl
        · rintro rfl
          exact absurd rfl notEnd
        · rintro _ _ rfl
          exact absurd rfl notSlash

def compileLiteral : List Char → Option (String → Bool)
  | '^' :: rest => (readLiteral rest).map fun text (value : String) => value.toList = text
  | _ => none

def literalRegex : RegexLibrary :=
  { compile := fun pattern => compileLiteral pattern.toList
    escape := fun text => String.ofList (escapeLetters text.toList) }

theorem literalRegex_compile_anchored (text : String) :
    literalRegex.compile (literalRegex.anchored text) =
      some fun value : String => decide (value.toList = text.toList) := by
  have letters : (literalRegex.anchored text).toList =
      '^' :: (escapeLetters text.toList ++ ['$']) := by
    rw [RegexLibrary.anchored, String.toList_append, String.toList_append]
    change '^' :: ((String.ofList (escapeLetters text.toList)).toList ++ ['$']) = _
    rw [String.toList_ofList]
  change compileLiteral (literalRegex.anchored text).toList = _
  rw [letters, compileLiteral, readLiteral_escape]
  rfl

theorem literalRegex_escapesExactly : literalRegex.EscapesExactly := by
  intro text isMatch compiled value
  rw [literalRegex_compile_anchored] at compiled
  cases compiled
  rw [decide_eq_true_eq]
  exact String.toList_inj

def pocketFacts : DetectedDeviceFacts :=
  { manufacturer := some " AYANEO\n"
    brand := some "AYANEO"
    model := some "Pocket S (2025)"
    androidVersion := some 14 }

def pocketProfile : DeviceProfileV1 :=
  { proposedProfile literalRegex pocketFacts with
    matchCriteria :=
      { manufacturerContains := ["Ayaneo"]
        brandContains := []
        modelPatterns := []
        androidVersion := some { min := some 11, max := some 13 } } }

theorem matchingAgrees_pocket :
    MatchingAgrees asciiTables literalRegex
      (proposedProfile literalRegex pocketFacts) pocketFacts := by
  refine (matchingAgrees_iff asciiTables_spacesSeparate literalRegex_escapesExactly _ _).mpr
    ⟨?_, ?_⟩
  · rintro ⟨_, _, exceeded⟩
    refine exceeded ?_
    intro version maximum _ bounded
    cases bounded
  · intro model reported
    cases reported
    refine Or.inr ⟨by decide +kernel, ?_⟩
    rw [literalRegex_compile_anchored]
    rfl

/-- Version 14 passes a maximum of 13, and a model after a space misses its own pattern. -/
theorem not_matchingAgrees_pocket :
    ¬ MatchingAgrees asciiTables literalRegex pocketProfile pocketFacts ∧
      ¬ MatchingAgrees asciiTables literalRegex pocketProfile
        { pocketFacts with model := some " Pocket S" } := by
  constructor
  · intro agrees
    have holds := agrees.matched_iff.mp (by decide +kernel)
    exact absurd (holds.atMostMax 14 13 rfl rfl) (by decide)
  · intro agrees
    exact absurd agrees.proposed_collides (by decide +kernel)

end EmuChef.DeviceProfile
