import EmuChef.Artifact.LocalName
import Mathlib.Data.List.Count

/-! Reading bytes as text: encoded text reads as itself, and percent signs are neither lost nor made. -/

namespace EmuChef.Artifact

theorem toNat_ofNat_byte {value : Nat} (small : value < 256) : (UInt8.ofNat value).toNat = value :=
  UInt8.toNat_ofNat_of_lt small

theorem isContinuation_iff {byte : UInt8} :
    isContinuation byte = true ↔ 128 ≤ byte.toNat ∧ byte.toNat ≤ 191 := by
  rw [isContinuation, Bool.and_eq_true, decide_eq_true_eq, decide_eq_true_eq,
    UInt8.le_iff_toNat_le, UInt8.le_iff_toNat_le]
  rfl

theorem characterWidth_eq (first : UInt8) : characterWidth first =
    if first.toNat < 128 then 1
    else if 194 ≤ first.toNat ∧ first.toNat ≤ 223 then 2
    else if 224 ≤ first.toNat ∧ first.toNat ≤ 239 then 3
    else if 240 ≤ first.toNat ∧ first.toNat ≤ 244 then 4
    else 0 := by
  simp only [characterWidth, Bool.and_eq_true, decide_eq_true_eq, UInt8.lt_iff_toNat_lt,
    UInt8.le_iff_toNat_le]
  rfl

theorem secondAllowed_iff {first second : UInt8} : secondAllowed first second = true ↔
    (first.toNat = 224 → 160 ≤ second.toNat) ∧ (first.toNat = 237 → second.toNat ≤ 159) ∧
      (first.toNat = 240 → 144 ≤ second.toNat) ∧ (first.toNat = 244 → second.toNat ≤ 143) ∧
      128 ≤ second.toNat ∧ second.toNat ≤ 191 := by
  simp only [secondAllowed, ← UInt8.toNat_inj]
  split_ifs <;> simp_all [isContinuation_iff, UInt8.le_iff_toNat_le] <;> omega

theorem ofNat_eq_percent {code : Nat} : Char.ofNat code = '%' ↔ code = 37 := by
  constructor
  · intro same
    by_cases valid : code.isValidChar
    · rw [Char.ofNat, dif_pos valid] at same
      exact congrArg Char.toNat same
    · rw [Char.ofNat, dif_neg valid] at same
      exact absurd same (by decide)
  · rintro rfl
    rfl

variable {first : UInt8}

theorem characterWidth_one (width : characterWidth first = 1) : first.toNat < 128 := by
  rw [characterWidth_eq] at width
  split_ifs at width <;> omega

theorem characterWidth_two (width : characterWidth first = 2) :
    194 ≤ first.toNat ∧ first.toNat ≤ 223 := by
  rw [characterWidth_eq] at width
  split_ifs at width <;> omega

theorem characterWidth_three (width : characterWidth first = 3) :
    224 ≤ first.toNat ∧ first.toNat ≤ 239 := by
  rw [characterWidth_eq] at width
  split_ifs at width <;> omega

theorem characterWidth_four (width : characterWidth first = 4) :
    240 ≤ first.toNat ∧ first.toNat ≤ 244 := by
  rw [characterWidth_eq] at width
  split_ifs at width <;> omega

/-- One step of reading takes the first byte and bytes that are not ASCII, and reads a percent sign
only from its own byte. -/
structure StepReads (first : UInt8) (rest : List UInt8) (step : Char × List UInt8) : Prop where
  consumed : ∃ more, rest = more ++ step.2 ∧ ∀ byte ∈ more, 128 ≤ byte.toNat
  percent : step.1 = '%' ↔ first.toNat = 37

theorem stepReads_replacement {rest after : List UInt8} (more : List UInt8)
    (wide : 128 ≤ first.toNat) (taken : rest = more ++ after)
    (bytes : ∀ byte ∈ more, 128 ≤ byte.toNat) : StepReads first rest (replacement, after) := by
  refine ⟨⟨more, taken, bytes⟩, ?_⟩
  constructor
  · intro same
    exact absurd (show replacement = '%' from same) (by decide)
  · intro percent
    omega

theorem stepReads_codePoint {lead : Nat} {rest after : List UInt8}
    (more : List UInt8) (wide : 128 ≤ first.toNat) (taken : rest = more ++ after)
    (bytes : ∀ byte ∈ more, 128 ≤ byte.toNat)
    (large : 37 < more.foldl (fun value byte => 64 * value + byte.toNat % 64) lead) :
    StepReads first rest (codePoint lead more, after) := by
  refine ⟨⟨more, taken, bytes⟩, ?_⟩
  rw [codePoint, ofNat_eq_percent]
  omega

theorem lossyChar_reads (first : UInt8) (rest : List UInt8) :
    StepReads first rest (lossyChar first rest) := by
  have none {byte : UInt8} : byte ∈ ([] : List UInt8) → 128 ≤ byte.toNat := by
    intro member
    cases member
  unfold lossyChar
  split
  next width =>
    have narrow := characterWidth_one width
    refine ⟨⟨[], rfl, fun _ => none⟩, ?_⟩
    rw [ofNat_eq_percent]
  next second rest width =>
    obtain ⟨least, most⟩ := characterWidth_two width
    split_ifs with continued
    · obtain ⟨low, high⟩ := isContinuation_iff.mp continued
      refine stepReads_codePoint [_] (by omega) rfl (by simpa using low) ?_
      simp only [List.foldl_cons, List.foldl_nil]
      omega
    · exact stepReads_replacement [] (by omega) rfl fun _ => none
  next second rest width =>
    obtain ⟨least, most⟩ := characterWidth_three width
    split_ifs with allowed
    · obtain ⟨first224, first237, _, _, low, high⟩ := secondAllowed_iff.mp allowed
      split
      next third rest =>
        split_ifs with continued
        · obtain ⟨thirdLow, thirdHigh⟩ := isContinuation_iff.mp continued
          refine stepReads_codePoint [_, _] (by omega) rfl (by simp [low, thirdLow]) ?_
          simp only [List.foldl_cons, List.foldl_nil]
          omega
        · exact stepReads_replacement [_] (by omega) rfl (by simpa using low)
      next => exact stepReads_replacement [_] (by omega) rfl (by simpa using low)
    · exact stepReads_replacement [] (by omega) rfl fun _ => none
  next second rest width =>
    obtain ⟨least, most⟩ := characterWidth_four width
    split_ifs with allowed
    · obtain ⟨_, _, first240, _, low, high⟩ := secondAllowed_iff.mp allowed
      split
      next third rest =>
        split_ifs with continued
        · obtain ⟨thirdLow, thirdHigh⟩ := isContinuation_iff.mp continued
          split
          next fourth rest =>
            split_ifs with complete
            · obtain ⟨fourthLow, fourthHigh⟩ := isContinuation_iff.mp complete
              refine stepReads_codePoint [_, _, _] (by omega) rfl (by simp [low, thirdLow, fourthLow]) ?_
              simp only [List.foldl_cons, List.foldl_nil]
              omega
            · exact stepReads_replacement [_, _] (by omega) rfl (by simp [low, thirdLow])
          next => exact stepReads_replacement [_, _] (by omega) rfl (by simp [low, thirdLow])
        · exact stepReads_replacement [_] (by omega) rfl (by simpa using low)
      next => exact stepReads_replacement [_] (by omega) rfl (by simpa using low)
    · exact stepReads_replacement [] (by omega) rfl fun _ => none
  next other _ notOne _ _ _ =>
    have wide : 128 ≤ first.toNat := by
      by_contra narrow
      refine notOne ?_
      rw [characterWidth_eq, if_pos (by omega)]
    exact stepReads_replacement [] wide rfl fun _ => none

theorem lossyText_fuel {fuel : Nat} {bytes : List UInt8} (enough : bytes.length ≤ fuel) :
    lossyText fuel bytes = fromUtf8Lossy bytes := by
  induction fuel using Nat.strongRecOn generalizing bytes with
  | ind fuel ih =>
      cases bytes with
      | nil => cases fuel <;> rfl
      | cons first rest =>
          obtain ⟨⟨more, taken, _⟩, _⟩ := lossyChar_reads first rest
          have shorter : (lossyChar first rest).2.length ≤ rest.length := by
            conv_rhs => rw [taken]
            rw [List.length_append]
            omega
          rw [List.length_cons] at enough
          cases fuel with
          | zero => omega
          | succ fuel =>
              have left := ih fuel (by omega) (le_trans shorter (by omega : rest.length ≤ fuel))
              have right : lossyText rest.length (lossyChar first rest).2 =
                  fromUtf8Lossy (lossyChar first rest).2 :=
                ih rest.length (by omega) shorter
              rw [fromUtf8Lossy, List.length_cons]
              change _ :: lossyText fuel (lossyChar first rest).2 =
                _ :: lossyText rest.length (lossyChar first rest).2
              rw [left, right]

theorem fromUtf8Lossy_cons (first : UInt8) (rest : List UInt8) :
    fromUtf8Lossy (first :: rest) =
      (lossyChar first rest).1 :: fromUtf8Lossy (lossyChar first rest).2 := by
  obtain ⟨⟨more, taken, _⟩, _⟩ := lossyChar_reads first rest
  have shorter : (lossyChar first rest).2.length ≤ rest.length := by
    conv_rhs => rw [taken]
    rw [List.length_append]
    omega
  rw [← lossyText_fuel shorter]
  rfl

theorem count_percent_lossy (bytes : List UInt8) :
    (fromUtf8Lossy bytes).count '%' = bytes.countP fun byte => byte.toNat = 37 := by
  induction measured : bytes.length using Nat.strongRecOn generalizing bytes with
  | ind size ih =>
      cases bytes with
      | nil => rfl
      | cons first rest =>
          obtain ⟨⟨more, taken, wide⟩, percent⟩ := lossyChar_reads first rest
          rw [List.length_cons] at measured
          have fewer : (lossyChar first rest).2.length < size := by
            have total := congrArg List.length taken
            rw [List.length_append] at total
            omega
          have passed : more.countP (fun byte => byte.toNat = 37) = 0 := by
            rw [List.countP_eq_zero]
            intro byte member
            have := wide byte member
            simp only [decide_eq_true_eq]
            omega
          have later : rest.countP (fun byte => byte.toNat = 37) =
              (lossyChar first rest).2.countP fun byte => byte.toNat = 37 := by
            conv_lhs => rw [taken]
            rw [List.countP_append, passed, Nat.zero_add]
          rw [fromUtf8Lossy_cons, List.count_cons, ih _ fewer _ rfl, List.countP_cons, later]
          simp [percent]

theorem lossyChar_one {code : Nat} (bound : code < 128) (rest : List UInt8) :
    lossyChar (UInt8.ofNat code) rest = (Char.ofNat code, rest) := by
  have toNat : (UInt8.ofNat code).toNat = code := toNat_ofNat_byte (by omega)
  have width : characterWidth (UInt8.ofNat code) = 1 := by
    rw [characterWidth_eq, toNat, if_pos bound]
  unfold lossyChar
  rw [width]
  change (Char.ofNat _, rest) = _
  rw [toNat]

theorem lossyChar_two {code : Nat} (least : 128 ≤ code) (most : code < 2048) (rest : List UInt8) :
    lossyChar (UInt8.ofNat (code / 64 % 0x20 + 0xc0)) (UInt8.ofNat (code % 0x40 + 0x80) :: rest) =
      (Char.ofNat code, rest) := by
  have first : (UInt8.ofNat (code / 64 % 0x20 + 0xc0)).toNat = code / 64 % 32 + 192 :=
    toNat_ofNat_byte (by omega)
  have second : (UInt8.ofNat (code % 0x40 + 0x80)).toNat = code % 64 + 128 :=
    toNat_ofNat_byte (by omega)
  have width : characterWidth (UInt8.ofNat (code / 64 % 0x20 + 0xc0)) = 2 := by
    rw [characterWidth_eq, first, if_neg (by omega), if_pos (by omega)]
  have continued := isContinuation_iff.mpr (⟨by omega, by omega⟩ :
    128 ≤ (UInt8.ofNat (code % 0x40 + 0x80)).toNat ∧
      (UInt8.ofNat (code % 0x40 + 0x80)).toNat ≤ 191)
  unfold lossyChar
  rw [width]
  change (if _ then _ else _) = _
  rw [if_pos continued, codePoint]
  simp only [List.foldl_cons, List.foldl_nil, first, second]
  congr 2
  omega

theorem lossyChar_three {code : Nat} (least : 2048 ≤ code) (most : code < 65536)
    (valid : code < 55296 ∨ 57343 < code) (rest : List UInt8) :
    lossyChar (UInt8.ofNat (code / 4096 % 0x10 + 0xe0))
        (UInt8.ofNat (code / 64 % 0x40 + 0x80) :: UInt8.ofNat (code % 0x40 + 0x80) :: rest) =
      (Char.ofNat code, rest) := by
  have first : (UInt8.ofNat (code / 4096 % 0x10 + 0xe0)).toNat = code / 4096 % 16 + 224 :=
    toNat_ofNat_byte (by omega)
  have second : (UInt8.ofNat (code / 64 % 0x40 + 0x80)).toNat = code / 64 % 64 + 128 :=
    toNat_ofNat_byte (by omega)
  have third : (UInt8.ofNat (code % 0x40 + 0x80)).toNat = code % 64 + 128 :=
    toNat_ofNat_byte (by omega)
  have width : characterWidth (UInt8.ofNat (code / 4096 % 0x10 + 0xe0)) = 3 := by
    rw [characterWidth_eq, first, if_neg (by omega), if_neg (by omega), if_pos (by omega)]
  have allowed : secondAllowed (UInt8.ofNat (code / 4096 % 0x10 + 0xe0))
      (UInt8.ofNat (code / 64 % 0x40 + 0x80)) = true := by
    rw [secondAllowed_iff, first, second]
    omega
  have continued : isContinuation (UInt8.ofNat (code % 0x40 + 0x80)) = true := by
    rw [isContinuation_iff, third]
    omega
  unfold lossyChar
  rw [width]
  change (if _ then (if _ then _ else _) else _) = _
  rw [if_pos allowed, if_pos continued, codePoint]
  simp only [List.foldl_cons, List.foldl_nil, first, second, third]
  congr 2
  omega

theorem lossyChar_four {code : Nat} (least : 65536 ≤ code) (most : code < 1114112)
    (rest : List UInt8) :
    lossyChar (UInt8.ofNat (code / 262144 % 0x08 + 0xf0))
        (UInt8.ofNat (code / 4096 % 0x40 + 0x80) :: UInt8.ofNat (code / 64 % 0x40 + 0x80) ::
          UInt8.ofNat (code % 0x40 + 0x80) :: rest) =
      (Char.ofNat code, rest) := by
  have first : (UInt8.ofNat (code / 262144 % 0x08 + 0xf0)).toNat = code / 262144 % 8 + 240 :=
    toNat_ofNat_byte (by omega)
  have second : (UInt8.ofNat (code / 4096 % 0x40 + 0x80)).toNat = code / 4096 % 64 + 128 :=
    toNat_ofNat_byte (by omega)
  have third : (UInt8.ofNat (code / 64 % 0x40 + 0x80)).toNat = code / 64 % 64 + 128 :=
    toNat_ofNat_byte (by omega)
  have fourth : (UInt8.ofNat (code % 0x40 + 0x80)).toNat = code % 64 + 128 :=
    toNat_ofNat_byte (by omega)
  have width : characterWidth (UInt8.ofNat (code / 262144 % 0x08 + 0xf0)) = 4 := by
    rw [characterWidth_eq, first, if_neg (by omega), if_neg (by omega), if_neg (by omega),
      if_pos (by omega)]
  have allowed : secondAllowed (UInt8.ofNat (code / 262144 % 0x08 + 0xf0))
      (UInt8.ofNat (code / 4096 % 0x40 + 0x80)) = true := by
    rw [secondAllowed_iff, first, second]
    omega
  have continued : isContinuation (UInt8.ofNat (code / 64 % 0x40 + 0x80)) = true := by
    rw [isContinuation_iff, third]
    omega
  have complete : isContinuation (UInt8.ofNat (code % 0x40 + 0x80)) = true := by
    rw [isContinuation_iff, fourth]
    omega
  unfold lossyChar
  rw [width]
  change (if _ then (if _ then (if _ then _ else _) else _) else _) = _
  rw [if_pos allowed, if_pos continued, if_pos complete, codePoint]
  simp only [List.foldl_cons, List.foldl_nil, first, second, third, fourth]
  congr 2
  omega

theorem fromUtf8Lossy_encodeChar (letter : Char) (rest : List UInt8) :
    fromUtf8Lossy (String.utf8EncodeChar letter ++ rest) = letter :: fromUtf8Lossy rest := by
  have valid : letter.val.toNat < 55296 ∨ 57343 < letter.val.toNat ∧ letter.val.toNat < 1114112 :=
    letter.valid
  have back : Char.ofNat letter.val.toNat = letter := Char.ofNat_toNat letter
  unfold String.utf8EncodeChar
  by_cases one : letter.val.toNat ≤ 0x7f
  · simp only [if_pos one, List.cons_append, List.nil_append]
    rw [fromUtf8Lossy_cons, lossyChar_one (by omega), back]
  · by_cases two : letter.val.toNat ≤ 0x7ff
    · simp only [if_neg one, if_pos two, List.cons_append, List.nil_append]
      rw [fromUtf8Lossy_cons, lossyChar_two (by omega) (by omega), back]
    · by_cases three : letter.val.toNat ≤ 0xffff
      · simp only [if_neg one, if_neg two, if_pos three, List.cons_append, List.nil_append]
        rw [fromUtf8Lossy_cons, lossyChar_three (by omega) (by omega) (by omega), back]
      · simp only [if_neg one, if_neg two, if_neg three, List.cons_append, List.nil_append]
        rw [fromUtf8Lossy_cons, lossyChar_four (by omega) (by omega), back]

/-- The lossy decoder is exact on what a text encodes to. -/
theorem fromUtf8Lossy_textBytes (text : List Char) : fromUtf8Lossy (textBytes text) = text := by
  induction text with
  | nil => rfl
  | cons letter text ih =>
      rw [textBytes, List.flatMap_cons, fromUtf8Lossy_encodeChar]
      exact congrArg _ ih

end EmuChef.Artifact
