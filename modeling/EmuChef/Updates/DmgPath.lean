import EmuChef.Updates.Policy

/-! An accepted download path keeps its segments when it is percent-decoded. -/

namespace EmuChef.Updates

open Adb (toAsciiLowercase contains)
open Checks (bind_eq_ok require_eq_ok)
open Artifact

def Escapes (text : List Char) (code : Nat) : Prop :=
  ∃ high low after first second, AfterPercent text (high :: low :: after) ∧
    hexDigit high = some first ∧ hexDigit low = some second ∧ 16 * first + second = code

variable {text : List Char}

theorem Escapes.cons {code : Nat} (escapes : Escapes text code) (letter : Char) :
    Escapes (letter :: text) code := by
  obtain ⟨high, low, after, first, second, percent, digits⟩ := escapes
  exact ⟨high, low, after, first, second, afterPercent_cons.mpr (Or.inr percent), digits⟩

theorem Escapes.append {code : Nat} (escapes : Escapes text code)
    (before after : List Char) : Escapes (before ++ text ++ after) code := by
  obtain ⟨high, low, rest, first, second, ⟨lead, rfl⟩, digits⟩ := escapes
  exact ⟨high, low, rest ++ after, first, second, ⟨before ++ lead, by simp⟩, digits⟩

theorem escapes_head {high low : Char} {rest : List Char} {first second : Nat}
    (one : hexDigit high = some first) (two : hexDigit low = some second) :
    Escapes ('%' :: high :: low :: rest) (16 * first + second) :=
  ⟨high, low, rest, first, second, afterPercent_cons.mpr (Or.inl ⟨rfl, rfl⟩), one, two, rfl⟩

theorem hexDigit_lower {letter : Char} {value : Nat} (read : hexDigit letter = some value) :
    letter.toLower = hexLetter value := by
  have narrow : letter.toNat < 128 := by
    have single := (hexDigit_some read).1
    simp only [Char.utf8Size] at single
    split_ifs at single with small
    all_goals first
      | exact Nat.lt_succ_of_le (UInt32.le_iff_toNat_le.mp small)
      | exact absurd single (by decide)
  have listed : ∀ code < 128, (hexDigit (Char.ofNat code)).all (fun value =>
      (Char.ofNat code).toLower = hexLetter value) = true := by
    decide +kernel
  have found := listed letter.toNat narrow
  rw [Char.ofNat_toNat, read] at found
  simpa using found

theorem contains_of_escapes {first second : Nat} (small : second < 16)
    (high : first < 16) (escapes : Escapes text (16 * first + second)) :
    ['%', hexLetter first, hexLetter second] <:+: toAsciiLowercase text := by
  obtain ⟨letter, other, after, one, two, ⟨before, rfl⟩, highRead, lowRead, code⟩ := escapes
  have bound := (hexDigit_some lowRead).2.2
  obtain rfl : one = first := by omega
  obtain rfl : two = second := by omega
  refine ⟨toAsciiLowercase before, toAsciiLowercase after, ?_⟩
  simp only [toAsciiLowercase, List.map_append, List.map_cons, hexDigit_lower highRead,
    hexDigit_lower lowRead, List.append_assoc]
  rfl

section

inductive DecodeStep : List Char → List UInt8 → List Char → Prop
  | escape {high low : Char} {first second : Nat} {rest : List Char} :
      hexDigit high = some first → hexDigit low = some second →
      DecodeStep ('%' :: high :: low :: rest) [UInt8.ofNat (16 * first + second)] rest
  | plain {letter : Char} {rest : List Char} :
      (letter = '%' → ∀ high low after, rest = high :: low :: after →
        hexDigit high = none ∨ hexDigit low = none) →
      DecodeStep (letter :: rest) (String.utf8EncodeChar letter) rest

variable {rest : List Char} {lead : List UInt8}

theorem DecodeStep.decodes (step : DecodeStep text lead rest) :
    exactDecodeBytes text = lead ++ exactDecodeBytes rest := by
  cases step with
  | escape one two =>
    rw [exactDecodeBytes, one, two]
    rfl
  | @plain letter rest noEscape =>
    by_cases percent : letter = '%'
    · subst percent
      cases rest with
      | nil => rfl
      | cons high rest =>
        cases rest with
        | nil => rfl
        | cons low after => exact exactDecodeBytes_literal (noEscape rfl high low after rfl)
    · exact exactDecodeBytes_cons percent

theorem exists_decodeStep (letter : Char) (text : List Char) :
    ∃ lead rest, DecodeStep (letter :: text) lead rest ∧ rest.length ≤ text.length := by
  by_cases plain : letter = '%' → ∀ high low after, text = high :: low :: after →
      hexDigit high = none ∨ hexDigit low = none
  · exact ⟨_, text, .plain plain, Nat.le_refl _⟩
  · push Not at plain
    obtain ⟨rfl, high, low, after, rfl, one, two⟩ := plain
    obtain ⟨first, one⟩ := Option.ne_none_iff_exists'.mp one
    obtain ⟨second, two⟩ := Option.ne_none_iff_exists'.mp two
    exact ⟨_, after, .escape one two, Nat.le_add_right _ 2⟩

theorem decode_induction {motive : List Char → Prop} (nil : motive [])
    (step : ∀ text lead rest, DecodeStep text lead rest → motive rest → motive text)
    (text : List Char) : motive text := by
  induction length : text.length using Nat.strongRecOn generalizing text with
  | ind size ih =>
    cases text with
    | nil => exact nil
    | cons letter text =>
      obtain ⟨lead, rest, taken, shorter⟩ := exists_decodeStep letter text
      rw [List.length_cons] at length
      exact step _ lead rest taken (ih rest.length (by omega) rest rfl)

theorem DecodeStep.append_slash (step : DecodeStep text lead rest) (tail : List Char) :
    DecodeStep (text ++ '/' :: tail) lead (rest ++ '/' :: tail) := by
  cases step with
  | escape one two => exact .escape one two
  | @plain letter rest noEscape =>
    refine .plain fun percent high low after split => ?_
    cases rest with
    | nil =>
      obtain ⟨rfl, -⟩ := List.cons.inj split
      exact Or.inl rfl
    | cons next rest =>
      obtain ⟨rfl, others⟩ := List.cons.inj split
      cases rest with
      | nil =>
        obtain ⟨rfl, -⟩ := List.cons.inj others
        exact Or.inr rfl
      | cons other rest =>
        obtain ⟨rfl, -⟩ := List.cons.inj others
        exact noEscape percent next other rest rfl

theorem decode_append_slash (before after : List Char) :
    exactDecodeBytes (before ++ '/' :: after) =
      exactDecodeBytes before ++ 0x2F :: exactDecodeBytes after := by
  induction before using decode_induction with
  | nil => exact exactDecodeBytes_cons (by decide)
  | step text lead rest taken ih =>
    rw [(taken.append_slash after).decodes, ih, taken.decodes, List.append_assoc]

theorem Escapes.of_step {code : Nat} (step : DecodeStep text lead rest)
    (escapes : Escapes rest code) : Escapes text code := by
  cases step with
  | escape _ _ => exact ((escapes.cons _).cons _).cons _
  | plain _ => exact escapes.cons _

theorem DecodeStep.mark {byte : UInt8} {mark : Char}
    (step : DecodeStep text lead rest) (ascii : mark.toNat < 0x80)
    (code : byte.toNat = mark.toNat) (noEscape : ¬Escapes text mark.toNat)
    (member : byte ∈ lead) :
    lead = [byte] ∧ text = mark :: rest := by
  cases step with
  | @escape high low first second rest one two =>
    refine absurd (@escapes_head high low rest first second one two) ?_
    rw [List.mem_singleton] at member
    have bounds := And.intro (hexDigit_some one).2.2 (hexDigit_some two).2.2
    rw [member, JsonText.toNat_ofNat_small (by omega)] at code
    exact code ▸ noEscape
  | @plain letter rest _ =>
    by_cases narrow : letter.toNat < 0x80
    · rw [JsonText.utf8_ascii narrow] at member ⊢
      rw [List.mem_singleton] at member
      have same : letter = mark := by
        apply Char.toNat_inj.mp
        rw [← code, member, JsonText.toNat_ofNat_small (by omega)]
      exact ⟨congrArg List.singleton member.symm, congrArg (· :: rest) same⟩
    · have large := JsonText.utf8_byte_large (by omega) member
      omega

theorem mark_of_mem_decode {byte : UInt8} {mark : Char}
    (ascii : mark.toNat < 0x80) (code : byte.toNat = mark.toNat)
    (noEscape : ¬Escapes text mark.toNat) (member : byte ∈ exactDecodeBytes text) : mark ∈ text := by
  induction text using decode_induction with
  | nil => cases member
  | step text lead rest taken ih =>
    rw [taken.decodes, List.mem_append] at member
    rcases member with first | later
    · rw [(taken.mark ascii code noEscape first).2]
      exact List.mem_cons_self
    · have found := ih (fun escapes => noEscape (escapes.of_step taken)) later
      cases taken with
      | escape _ _ => exact List.mem_cons_of_mem _ (List.mem_cons_of_mem _ (List.mem_cons_of_mem _ found))
      | plain _ => exact List.mem_cons_of_mem _ found

theorem DecodeStep.lead_ne_nil (step : DecodeStep text lead rest) : lead ≠ [] := by
  cases step with
  | escape _ _ => exact List.cons_ne_nil _ _
  | plain _ => exact JsonText.utf8EncodeChar_ne_nil _

theorem exactDecodeBytes_ne_nil (nonempty : text ≠ []) : exactDecodeBytes text ≠ [] := by
  obtain ⟨letter, rest, rfl⟩ := List.exists_cons_of_ne_nil nonempty
  obtain ⟨lead, after, step, -⟩ := exists_decodeStep letter rest
  rw [step.decodes]
  exact List.append_ne_nil_of_left_ne_nil step.lead_ne_nil _

theorem eq_replicate_of_decode {byte : UInt8} {mark : Char} {count : Nat}
    (ascii : mark.toNat < 0x80) (code : byte.toNat = mark.toNat)
    (noEscape : ¬Escapes text mark.toNat)
    (decoded : exactDecodeBytes text = List.replicate count byte) :
    text = List.replicate count mark := by
  induction text using decode_induction generalizing count with
  | nil =>
    cases count with
    | zero => rfl
    | succ count => cases decoded
  | step text lead rest taken ih =>
    rw [taken.decodes] at decoded
    obtain ⟨first, more, bytes⟩ := List.exists_cons_of_ne_nil taken.lead_ne_nil
    have copies : ∀ other ∈ lead ++ exactDecodeBytes rest, other = byte := by
      rw [decoded]
      exact fun other => List.eq_of_mem_replicate
    have start : first = byte := copies first (by rw [bytes]; exact List.mem_cons_self)
    obtain ⟨single, split⟩ := taken.mark ascii code noEscape (bytes ▸ start ▸ List.mem_cons_self)
    rw [single] at decoded
    cases count with
    | zero => cases decoded
    | succ count =>
      rw [split, ih (fun escapes => noEscape (escapes.of_step taken)) (List.cons.inj decoded).2]
      rfl

end

section

def byteSegments (path : List UInt8) : List (List UInt8) := path.splitOn 0x2F

def joinSegments (segments : List (List UInt8)) : List UInt8 := [0x2F].intercalate segments

def singleDot : List UInt8 := [0x2E]
def doubleDot : List UInt8 := [0x2E, 0x2E]

/-- The removal of dot segments, with the segments kept so far in reverse. A dot segment at the end
leaves an empty one. -/
def removeDotSegments (kept : List (List UInt8)) : List (List UInt8) → List (List UInt8)
  | [] => kept.reverse
  | [last] =>
    if last = singleDot then ([] :: kept).reverse
    else if last = doubleDot then ([] :: kept.tail).reverse
    else (last :: kept).reverse
  | segment :: next :: rest =>
    if segment = singleDot then removeDotSegments kept (next :: rest)
    else if segment = doubleDot then removeDotSegments kept.tail (next :: rest)
    else removeDotSegments (segment :: kept) (next :: rest)

theorem removeDotSegments_clean {kept segments : List (List UInt8)}
    (clean : ∀ segment ∈ segments, segment ≠ singleDot ∧ segment ≠ doubleDot) :
    removeDotSegments kept segments = kept.reverse ++ segments := by
  fun_induction removeDotSegments kept segments with
  | case1 kept => exact (List.append_nil _).symm
  | case2 kept => exact absurd rfl (clean _ List.mem_cons_self).1
  | case3 kept _ => exact absurd rfl (clean _ List.mem_cons_self).2
  | case4 kept last _ _ => exact List.reverse_cons
  | case5 kept next rest ih => exact absurd rfl (clean _ List.mem_cons_self).1
  | case6 kept next rest _ ih => exact absurd rfl (clean _ List.mem_cons_self).2
  | case7 kept segment next rest _ _ ih =>
    rw [ih fun other member => clean other (List.mem_cons_of_mem _ member), List.reverse_cons,
      List.append_assoc]
    rfl

variable {path : List Char}

theorem byteSegments_decode (noEscape : ¬Escapes path 0x2F) :
    byteSegments (exactDecodeBytes path) = (path.splitOn '/').map exactDecodeBytes := by
  induction length : path.length using Nat.strongRecOn generalizing path with
  | ind size ih =>
    by_cases slash : '/' ∈ path
    · obtain ⟨before, after, rfl, clean⟩ := List.eq_append_cons_of_mem slash
      have early : ¬Escapes before 0x2F := fun escapes => noEscape (escapes.append [] ('/' :: after))
      have late : ¬Escapes after 0x2F := by
        intro escapes
        have whole := (escapes.cons '/').append before []
        rw [List.append_nil] at whole
        exact noEscape whole
      have noByte : (0x2F : UInt8) ∉ exactDecodeBytes before :=
        fun member => clean (mark_of_mem_decode (by decide) rfl early member)
      rw [List.length_append, List.length_cons] at length
      rw [byteSegments, decode_append_slash, SlashPath.splitOn_append_cons,
        SlashPath.splitOn_append_cons, SlashPath.splitOn_eq_singleton _ noByte,
        SlashPath.splitOn_eq_singleton _ clean, List.map_append]
      congr 1
      exact ih after.length (by omega) late rfl
    · have clean : (0x2F : UInt8) ∉ exactDecodeBytes path :=
        fun member => slash (mark_of_mem_decode (by decide) rfl noEscape member)
      rw [byteSegments, SlashPath.splitOn_eq_singleton _ clean,
        SlashPath.splitOn_eq_singleton _ slash]
      rfl

/-- What decoding and removing dot segments leave of an accepted path begins with the decoded
prefix and has more behind it. -/
def LiesBelow (path pathPrefix : String) : Prop :=
  ∃ rest, rest ≠ [] ∧
    joinSegments (removeDotSegments [] (byteSegments (exactDecodeBytes path.toList))) =
      exactDecodeBytes pathPrefix.toList ++ rest

theorem notEscapes_of_normalized {slash : Bool}
    (normalized : pathIsNotNormalized path slash = false) :
    ¬Escapes path 0x2F ∧ ¬Escapes path 0x5C ∧ ¬Escapes path 0x2E ∧ ¬Escapes path 0x25 := by
  simp only [pathIsNotNormalized, Bool.or_eq_false_iff, contains, decide_eq_false_iff_not] at normalized
  obtain ⟨⟨⟨⟨⟨-, slashes⟩, backslashes⟩, dots⟩, percents⟩, -⟩ := normalized
  exact ⟨fun escapes => slashes (@contains_of_escapes path 2 15 (by decide) (by decide) escapes),
    fun escapes => backslashes (@contains_of_escapes path 5 12 (by decide) (by decide) escapes),
    fun escapes => dots (@contains_of_escapes path 2 14 (by decide) (by decide) escapes),
    fun escapes => percents (@contains_of_escapes path 2 5 (by decide) (by decide) escapes)⟩

theorem infix_of_mem_splitOn {part : List Char} (member : part ∈ path.splitOn '/') :
    part <:+: path := by
  induction length : path.length using Nat.strongRecOn generalizing path with
  | ind size ih =>
    by_cases slash : '/' ∈ path
    · obtain ⟨before, after, rfl, clean⟩ := List.eq_append_cons_of_mem slash
      rw [List.length_append, List.length_cons] at length
      rw [SlashPath.splitOn_append_cons, SlashPath.splitOn_eq_singleton _ clean,
        List.singleton_append, List.mem_cons] at member
      rcases member with rfl | later
      · exact ⟨[], '/' :: after, rfl⟩
      · have inside := ih after.length (by omega) later rfl
        exact inside.trans ⟨before ++ ['/'], [], by simp⟩
    · rw [SlashPath.splitOn_eq_singleton _ slash, List.mem_singleton] at member
      rw [member]

theorem segments_clean {slash : Bool} (normalized : pathIsNotNormalized path slash = false) :
    ∀ segment ∈ byteSegments (exactDecodeBytes path), segment ≠ singleDot ∧ segment ≠ doubleDot := by
  obtain ⟨noSlash, -, noDot, -⟩ := notEscapes_of_normalized normalized
  rw [byteSegments_decode noSlash]
  intro segment member
  obtain ⟨part, listed, rfl⟩ := List.mem_map.mp member
  have unescaped : ¬Escapes part 0x2E := by
    intro escapes
    obtain ⟨before, after, rfl⟩ := infix_of_mem_splitOn listed
    exact noDot (escapes.append before after)
  simp only [pathIsNotNormalized, Bool.or_eq_false_iff, List.any_eq_false, Bool.or_eq_true,
    decide_eq_true_eq, not_or] at normalized
  obtain ⟨single, double⟩ := normalized.2 part listed
  have copies (count : Nat) := @eq_replicate_of_decode part 0x2E '.' count (by decide) rfl unescaped
  exact ⟨fun decoded => single (copies 1 decoded), fun decoded => double (copies 2 decoded)⟩

theorem liesBelow_of_normalized {path pathPrefix : String} {slash : Bool}
    (normalized : pathIsNotNormalized path.toList slash = false)
    (trusted : pathPrefix.toList.getLast? = some '/')
    (below : pathPrefix.toList <+: path.toList) (longer : pathPrefix ≠ path) :
    LiesBelow path pathPrefix := by
  obtain ⟨rest, whole⟩ := below
  obtain ⟨lead, folder⟩ := List.getLast?_eq_some_iff.mp trusted
  have more : rest ≠ [] := by
    rintro rfl
    rw [List.append_nil] at whole
    exact longer (String.toList_inj.mp whole)
  have joined : joinSegments (byteSegments (exactDecodeBytes path.toList)) =
      exactDecodeBytes path.toList := List.intercalate_splitOn 0x2F
  refine ⟨exactDecodeBytes rest, exactDecodeBytes_ne_nil more, ?_⟩
  rw [removeDotSegments_clean (segments_clean normalized), List.reverse_nil, List.nil_append, joined,
    ← whole, folder, List.append_assoc, List.singleton_append, decode_append_slash,
    decode_append_slash, List.append_assoc]
  rfl

structure TrustedAddress {Version : Type} (crates : Crates Version) (trust : ConfiguredTrust)
    (value : String) (url origin : Url) : Prop where
  parsed : crates.parseUrl value = some url
  trusted : crates.parseUrl trust.dmgOrigin = some origin
  scheme : url.scheme = origin.scheme
  secure : url.scheme = "https" ∨ trust.allowHttpForTests = true ∧ url.scheme = "http"
  host : url.hostStr = origin.hostStr ∧ url.hostStr ≠ none
  port : url.portOrKnownDefault = origin.portOrKnownDefault
  anonymous : url.username = "" ∧ url.password = none
  bare : url.query = none ∧ url.fragment = none
  below : LiesBelow url.path trust.dmgPathPrefix

theorem orReject_eq_ok {α : Type} {value : Option α} {found : α} :
    orReject value = .ok found ↔ value = some found := by
  cases value with
  | none => simp [orReject]
  | some value => simp [orReject]

theorem validateHttpsUrl_eq_ok {Version : Type} {crates : Crates Version} {value : String}
    {allowHttp : Bool} {url : Url} (valid : validateHttpsUrl crates value allowHttp = .ok url) :
    crates.parseUrl value = some url ∧
      (url.scheme = "https" ∨ allowHttp = true ∧ url.scheme = "http") ∧ url.username = "" ∧
        url.password = none ∧ url.hostStr ≠ none := by
  obtain ⟨found, parsed, valid⟩ := bind_eq_ok.mp valid
  obtain ⟨⟨⟩, checked, valid⟩ := bind_eq_ok.mp valid
  obtain rfl : found = url := Except.ok.inj valid
  exact ⟨orReject_eq_ok.mp parsed, require_eq_ok.mp checked⟩

/-- An accepted download address stays below the trusted one. -/
theorem validateDmgUrl_trusted {Version : Type} {crates : Crates Version} {value : String}
    {trust : ConfiguredTrust} (valid : validateDmgUrl crates value trust = .ok ()) :
    ∃ url origin, TrustedAddress crates trust value url origin := by
  obtain ⟨⟨⟩, prefixValid, valid⟩ := bind_eq_ok.mp valid
  obtain ⟨url, secure, valid⟩ := bind_eq_ok.mp valid
  obtain ⟨origin, trusted, valid⟩ := bind_eq_ok.mp valid
  obtain ⟨rawPath, -, valid⟩ := bind_eq_ok.mp valid
  obtain ⟨parsed, scheme, username, password, named⟩ := validateHttpsUrl_eq_ok secure
  obtain ⟨-, folder, -⟩ := require_eq_ok.mp prefixValid
  obtain ⟨sameScheme, sameHost, samePort, -, below, ⟨lead, image⟩, query, fragment, normalized⟩ :=
    require_eq_ok.mp valid
  have longer : trust.dmgPathPrefix ≠ url.path := by
    intro same
    rw [same, ← image] at folder
    simp at folder
  exact ⟨url, origin, {
    parsed
    trusted := orReject_eq_ok.mp trusted
    scheme := sameScheme
    secure := scheme
    host := ⟨sameHost, named⟩
    port := samePort
    anonymous := ⟨username, password⟩
    bare := ⟨query, fragment⟩
    below := liesBelow_of_normalized normalized folder below longer }⟩

end

end EmuChef.Updates
