import EmuChef.Lib.Checks
import EmuChef.Updates.Lexical

/-! The update manifest: its canonical bytes and the strict reader that accepts nothing else. -/

namespace EmuChef.Updates

open EmuChef.Artifact
open EmuChef.JsonText

structure SignedManifest where
  schemaVersion : UInt64
  product : String
  channel : String
  platform : String
  architecture : String
  version : String
  publishedAt : String
  expiresAt : String
  notes : String
  dmgUrl : String
  dmgSizeBytes : UInt64
  dmgSha256 : String
  minimumMacosVersion : Option String
  metadataKeyId : String
  deriving DecidableEq

structure Manifest extends signed : SignedManifest where
  metadataSignature : String
  deriving DecidableEq

def SignedManifest.fields (manifest : SignedManifest) : List (String × Scalar) :=
  [("schemaVersion", .number manifest.schemaVersion.toNat),
    ("product", .text manifest.product),
    ("channel", .text manifest.channel),
    ("platform", .text manifest.platform),
    ("architecture", .text manifest.architecture),
    ("version", .text manifest.version),
    ("publishedAt", .text manifest.publishedAt),
    ("expiresAt", .text manifest.expiresAt),
    ("notes", .text manifest.notes),
    ("dmgUrl", .text manifest.dmgUrl),
    ("dmgSizeBytes", .number manifest.dmgSizeBytes.toNat),
    ("dmgSha256", .text manifest.dmgSha256)] ++
  (manifest.minimumMacosVersion.map fun minimum => ("minimumMacosVersion", .text minimum)).toList ++
  [("metadataKeyId", .text manifest.metadataKeyId)]

def Manifest.fields (manifest : Manifest) : List (String × Scalar) :=
  manifest.signed.fields ++ [("metadataSignature", .text manifest.metadataSignature)]

def Manifest.canonicalSignedBytes (manifest : Manifest) : List UInt8 :=
  writeObject manifest.signed.fields

def Manifest.canonicalFullBytes (manifest : Manifest) : List UInt8 := writeObject manifest.fields

def strictParseManifest (fromSlice : List UInt8 → Option Manifest) (bytes : List UInt8) :
    Except Fault Manifest := do
  validateJsonLexicalContract bytes
  let manifest ← (fromSlice bytes).elim (.error .rejected) .ok
  if manifest.canonicalFullBytes = bytes then .ok manifest else .error .rejected

def IsText (bytes : List UInt8) : Prop := ∃ text, textBytes text = bytes

theorem IsText.append {first second : List UInt8} (one : IsText first) (two : IsText second) :
    IsText (first ++ second) := by
  obtain ⟨before, rfl⟩ := one
  obtain ⟨after, rfl⟩ := two
  exact ⟨before ++ after, List.flatMap_append⟩

theorem isText_ascii {bytes : List UInt8} (ascii : ∀ byte ∈ bytes, byte.toNat < 0x80) : IsText bytes := by
  induction bytes with
  | nil => exact ⟨[], rfl⟩
  | cons byte bytes ih =>
    have small := ascii byte List.mem_cons_self
    have valid : byte.toNat.isValidChar := Or.inl (by omega)
    have code : (Char.ofNat byte.toNat).toNat = byte.toNat := by
      rw [Char.ofNat, dif_pos valid]
      rfl
    have single : IsText [byte] := by
      refine ⟨[Char.ofNat byte.toNat], ?_⟩
      rw [textBytes, List.flatMap_singleton, utf8_ascii (by omega), code, UInt8.ofNat_toNat]
    exact single.append (ih fun other member => ascii other (List.mem_cons_of_mem _ member))

theorem specials_ascii : ∀ letter ∈ specials, ∀ byte ∈ escapeChar letter, byte.toNat < 0x80 := by
  have checked : specials.all (fun letter => (escapeChar letter).all fun byte => byte.toNat < 0x80) =
      true := by
    decide +kernel
  intro letter special byte member
  exact of_decide_eq_true
    (List.all_eq_true.mp (List.all_eq_true.mp checked letter special) byte member)

theorem isText_escapeText (text : List Char) : IsText (escapeText text) := by
  induction text with
  | nil => exact ⟨[], rfl⟩
  | cons letter text ih =>
    have written : IsText (escapeChar letter) := by
      by_cases plain : escapeCode letter = none
      · exact ⟨[letter], by rw [textBytes, List.flatMap_singleton, escapeChar_plain plain]⟩
      · exact isText_ascii (specials_ascii letter (mem_specials plain))
    exact written.append ih

theorem isText_byte {byte : UInt8} (ascii : byte.toNat < 0x80) : IsText [byte] :=
  isText_ascii fun _ member => List.mem_singleton.mp member ▸ ascii

theorem isText_writeText (text : String) : IsText (writeText text) :=
  (@isText_byte quote (by decide)).append
    ((isText_escapeText text.toList).append (isText_byte (by decide)))

theorem isText_writeScalar (value : Scalar) : IsText (writeScalar value) := by
  cases value with
  | text value => exact isText_writeText value
  | number value =>
    refine isText_ascii fun byte member => ?_
    exact startsNumber_ascii (by rw [startsNumber, decimal_digits value byte member, Bool.or_true])

theorem isText_writeField (field : String × Scalar) : IsText (writeField field) :=
  (isText_writeText field.1).append
    ((@isText_byte colon (by decide)).append (isText_writeScalar field.2))

theorem isText_writeFields (fields : List (String × Scalar)) : IsText (writeFields fields) := by
  fun_induction writeFields fields with
  | case1 => exact isText_byte (by decide)
  | case2 field => exact (isText_writeField field).append (isText_byte (by decide))
  | case3 field next rest ih =>
    exact (isText_writeField field).append ((@isText_byte comma (by decide)).append ih)

theorem fromUtf8_textBytes (text : List Char) : fromUtf8 (textBytes text) = some text := by
  rw [fromUtf8, fromUtf8Lossy_textBytes, if_pos rfl]

theorem validateJsonLexicalContract_writeObject {fields : List (String × Scalar)}
    (unescaped : ∀ field ∈ fields, Unescaped field.1)
    (distinct : (fields.map fun field => escapeText field.1.toList).Nodup) :
    validateJsonLexicalContract (writeObject fields) = .ok () ↔
      ∀ field ∈ fields, Scalar.Safe field.2 := by
  obtain ⟨text, bytes⟩ := isText_writeFields fields
  have whole : textBytes (Char.ofNat 0x7B :: text) = writeObject fields := by
    rw [textBytes_cons, bytes]
    rfl
  have read : fromUtf8 (writeObject fields) = some (Char.ofNat 0x7B :: text) := by
    rw [← whole, fromUtf8_textBytes]
  have noMark : (Char.ofNat 0x7B :: text).head? ≠ some (Char.ofNat 0xFEFF) :=
    fun same => absurd (Option.some.inj same) (by decide)
  rw [validateJsonLexicalContract, read]
  simp only [decide_eq_false noMark, writeObject, List.isEmpty_cons, Bool.or_false, Bool.false_eq_true,
    if_false]
  exact scan_writeObject unescaped distinct

def fieldKeys : List String :=
  ["schemaVersion", "product", "channel", "platform", "architecture", "version", "publishedAt",
    "expiresAt", "notes", "dmgUrl", "dmgSizeBytes", "dmgSha256", "minimumMacosVersion",
    "metadataKeyId", "metadataSignature"]

theorem Manifest.keys_sublist (manifest : Manifest) :
    (manifest.fields.map Prod.fst).Sublist fieldKeys := by
  have keys : manifest.fields.map Prod.fst = fieldKeys.take 12 ++
      (manifest.minimumMacosVersion.map fun _ => "minimumMacosVersion").toList ++
        fieldKeys.drop 13 := by
    cases present : manifest.minimumMacosVersion <;> simp [Manifest.fields, SignedManifest.fields,
      fieldKeys, present]
  rw [keys]
  cases manifest.minimumMacosVersion with
  | none => decide
  | some minimum => exact List.Sublist.refl fieldKeys

theorem Manifest.unescaped (manifest : Manifest) : ∀ field ∈ manifest.fields, Unescaped field.1 := by
  have checked : fieldKeys.all (fun key => key.toList.all fun letter => escapeCode letter = none) =
      true := by
    decide +kernel
  have keys : ∀ key ∈ fieldKeys, Unescaped key := fun key listed letter member =>
    of_decide_eq_true (List.all_eq_true.mp (List.all_eq_true.mp checked key listed) letter member)
  exact fun field member => keys field.1 (manifest.keys_sublist.mem (List.mem_map_of_mem member))

theorem Manifest.distinct (manifest : Manifest) :
    (manifest.fields.map fun field => escapeText field.1.toList).Nodup := by
  have keys : (fieldKeys.map fun key => escapeText key.toList).Nodup := by decide +kernel
  have written := keys.sublist (manifest.keys_sublist.map fun key => escapeText key.toList)
  rwa [List.map_map] at written

theorem Manifest.keys_nodup (manifest : Manifest) : (manifest.fields.map Prod.fst).Nodup := by
  have keys : fieldKeys.Nodup := by decide +kernel
  exact keys.sublist manifest.keys_sublist

/-- The bytes are the canonical encoding of the manifest, with unescaped keys, each given once, and
integers that every JSON reader holds exactly. -/
structure IsCanonical (bytes : List UInt8) (manifest : Manifest) : Prop where
  encoding : bytes = manifest.canonicalFullBytes
  unescaped : ∀ field ∈ manifest.fields, Unescaped field.1
  distinct : (manifest.fields.map Prod.fst).Nodup
  integers : ∀ key value, (key, Scalar.number value) ∈ manifest.fields → value ≤ maxSafeInteger

theorem safe_iff {fields : List (String × Scalar)} : (∀ field ∈ fields, Scalar.Safe field.2) ↔
    ∀ key value, (key, Scalar.number value) ∈ fields → value ≤ maxSafeInteger := by
  constructor
  · exact fun safe key value member => safe (key, .number value) member
  · rintro safe ⟨key, value | value⟩ member
    · trivial
    · exact safe key value member

/-- The strict parser accepts canonical bytes and nothing else. -/
theorem strictParseManifest_eq_ok {fromSlice : List UInt8 → Option Manifest}
    (reads : ∀ manifest : Manifest, fromSlice manifest.canonicalFullBytes = some manifest)
    {bytes : List UInt8} {manifest : Manifest} :
    strictParseManifest fromSlice bytes = .ok manifest ↔ IsCanonical bytes manifest := by
  have scanned := @validateJsonLexicalContract_writeObject manifest.fields manifest.unescaped
    manifest.distinct
  constructor
  · intro parsed
    obtain ⟨⟨⟩, checked, parsed⟩ := Checks.bind_eq_ok.mp parsed
    obtain ⟨read, decoded, parsed⟩ := Checks.bind_eq_ok.mp parsed
    split_ifs at parsed with same
    obtain rfl : read = manifest := Except.ok.inj parsed
    rw [← same, Manifest.canonicalFullBytes, scanned, safe_iff] at checked
    exact ⟨same.symm, read.unescaped, read.keys_nodup, checked⟩
  · rintro ⟨rfl, -, -, safe⟩
    have checked : validateJsonLexicalContract manifest.canonicalFullBytes = .ok () :=
      scanned.mpr (safe_iff.mpr safe)
    rw [strictParseManifest, checked, reads manifest]
    exact if_pos rfl

theorem strictParseManifest_panicked (fromSlice : List UInt8 → Option Manifest) (bytes : List UInt8) :
    strictParseManifest fromSlice bytes ≠ .error .panicked := by
  refine bind_panicked (validateJsonLexicalContract_panicked bytes) fun _ => ?_
  refine bind_panicked ?_ fun manifest => ?_
  · cases fromSlice bytes with
    | none => simp
    | some manifest => simp
  · split_ifs
    all_goals simp

theorem SignedManifest.fields_injective {first second : SignedManifest}
    (same : first.fields = second.fields) : first = second := by
  obtain ⟨_, _, _, _, _, _, _, _, _, _, _, _, minimum, _⟩ := first
  obtain ⟨_, _, _, _, _, _, _, _, _, _, _, _, other, _⟩ := second
  cases minimum
  all_goals cases other
  all_goals simp_all [SignedManifest.fields, UInt64.toNat_inj]

theorem signed_of_canonicalSignedBytes {first second : Manifest}
    (same : first.canonicalSignedBytes = second.canonicalSignedBytes) :
    first.signed = second.signed :=
  SignedManifest.fields_injective (writeObject_injective same)

def endFields : List (String × Scalar) → Option (Option String × String × String)
  | [(_, .text keyId), (_, .text signature)] => some (none, keyId, signature)
  | [(_, .text minimum), (_, .text keyId), (_, .text signature)] =>
    some (some minimum, keyId, signature)
  | _ => none

def Manifest.ofFields : List (String × Scalar) → Option Manifest
  | (_, .number schemaVersion) :: (_, .text product) :: (_, .text channel) :: (_, .text platform) ::
      (_, .text architecture) :: (_, .text version) :: (_, .text publishedAt) ::
      (_, .text expiresAt) :: (_, .text notes) :: (_, .text dmgUrl) :: (_, .number dmgSizeBytes) ::
      (_, .text dmgSha256) :: rest =>
    (endFields rest).map fun last =>
      { schemaVersion := UInt64.ofNat schemaVersion, product, channel, platform, architecture,
        version, publishedAt, expiresAt, notes, dmgUrl,
        dmgSizeBytes := UInt64.ofNat dmgSizeBytes, dmgSha256,
        minimumMacosVersion := last.1, metadataKeyId := last.2.1, metadataSignature := last.2.2 }
  | _ => none

def readCanonical (bytes : List UInt8) : Option Manifest :=
  ((readObject bytes).bind fun read => Manifest.ofFields read.1).filter fun manifest =>
    manifest.canonicalFullBytes = bytes

theorem Manifest.ofFields_fields (manifest : Manifest) :
    Manifest.ofFields manifest.fields = some manifest := by
  obtain ⟨⟨_, _, _, _, _, _, _, _, _, _, _, _, minimum, _⟩, _⟩ := manifest
  cases minimum
  all_goals
    simp [Manifest.ofFields, Manifest.fields, SignedManifest.fields, endFields]

theorem readCanonical_canonicalFullBytes (manifest : Manifest) :
    readCanonical manifest.canonicalFullBytes = some manifest := by
  have read : readObject manifest.canonicalFullBytes = some (manifest.fields, []) := by
    rw [Manifest.canonicalFullBytes, ← List.append_nil (writeObject manifest.fields)]
    exact readObject_writeObject manifest.fields []
  rw [readCanonical, read, Option.bind_some, manifest.ofFields_fields]
  exact Option.filter_some_pos (decide_eq_true rfl)

end EmuChef.Updates
