import EmuChef.CopyCommit.Schedule
import EmuChef.Lib.JsonText
import EmuChef.Lib.Split

/-! Manifests are told apart by the bytes that their digest is taken over. -/

namespace EmuChef.CopyCommit

def textBytes (text : String) : List UInt8 := text.toList.flatMap String.utf8EncodeChar

theorem byteArray_toList (bytes : ByteArray) : bytes.toList = bytes.data.toList := by
  have loop : ∀ room index passed, bytes.size - index = room →
      ByteArray.toList.loop bytes index passed = passed.reverse ++ bytes.data.toList.drop index := by
    intro room
    induction room with
    | zero =>
        intro index passed none
        have past : bytes.data.toList.length ≤ index := by
          change bytes.size ≤ index
          omega
        rw [ByteArray.toList.loop, if_neg (by omega), List.drop_eq_nil_of_le past, List.append_nil]
    | succ room ih =>
        intro index passed some
        have inside : index < bytes.data.toList.length := by
          change index < bytes.size
          omega
        have read : bytes.get! index = bytes.data.toList[index] := by
          change bytes.data[index]! = _
          rw [getElem!_pos bytes.data index inside]
          rfl
        rw [ByteArray.toList.loop, if_pos (by omega), ih _ _ (by omega), read,
          List.drop_eq_getElem_cons inside]
        simp
  exact loop _ 0 [] rfl

theorem toList_toByteArray (text : String) : text.toByteArray.toList = textBytes text := by
  rw [byteArray_toList, ← String.utf8Encode_toList, List.utf8Encode, List.toList_data_toByteArray]
  rfl

theorem textBytes_injective : Function.Injective textBytes := by
  intro first second same
  rw [← toList_toByteArray, ← toList_toByteArray, byteArray_toList, byteArray_toList] at same
  exact String.toByteArray_inj.mp (ByteArray.ext (Array.toList_inj.mp same))

theorem mem_of_mem_textBytes {letter : Char} (narrow : letter.toNat < 0x80) {text : String}
    (member : UInt8.ofNat letter.toNat ∈ textBytes text) : letter ∈ text.toList := by
  obtain ⟨other, inside, byte⟩ := List.mem_flatMap.mp member
  have value : (UInt8.ofNat letter.toNat).toNat = letter.toNat :=
    JsonText.toNat_ofNat_small (by omega)
  by_cases wide : 0x80 ≤ other.toNat
  · have large := JsonText.utf8_byte_large wide byte
    omega
  · rw [JsonText.utf8_ascii (by omega), List.mem_singleton] at byte
    have same : letter.toNat = other.toNat := by
      rw [← value, byte, JsonText.toNat_ofNat_small (by omega)]
    rwa [Char.toNat_inj.mp same]

def entryBytes (entry : CopyManifestEntry) : List UInt8 :=
  textBytes entry.relativePath ++ 0 :: (textBytes (kindName entry.kind) ++ 0 ::
    (entry.sha256.elim [] textBytes ++ 0 :: (entry.entryIdentity.elim [] textBytes ++ [10])))

theorem manifestPreimage_eq (manifest : List CopyManifestEntry) :
    manifestPreimage manifest = manifest.flatMap entryBytes := by
  have newline : textBytes "\n" = [10] := by decide
  refine congrArg (List.flatMap · manifest) (funext fun entry => ?_)
  simp [entryBytes, toList_toByteArray, newline]

/-- The separators of an entry occur nowhere else in it, but for newlines in its path. -/
structure Separable (entry : CopyManifestEntry) : Prop where
  path : '\x00' ∉ entry.relativePath.toList
  digest : validateDigest entry = .ok ()
  identity : ∀ identity, entry.entryIdentity = some identity →
    identity ≠ "" ∧ '\x00' ∉ identity.toList ∧ '\n' ∉ identity.toList

theorem nul_notMem {text : String} (clean : '\x00' ∉ text.toList) : (0 : UInt8) ∉ textBytes text :=
  fun member => clean (@mem_of_mem_textBytes '\x00' (by decide) text member)

theorem newline_notMem {text : String} (clean : '\n' ∉ text.toList) :
    (10 : UInt8) ∉ textBytes text :=
  fun member => clean (@mem_of_mem_textBytes '\n' (by decide) text member)

theorem textBytes_kindName_injective {first second : CopyEntryKind}
    (same : textBytes (kindName first) = textBytes (kindName second)) : first = second := by
  have names := textBytes_injective same
  cases first <;> cases second
  · rfl
  · exact absurd names (by decide)
  · exact absurd names (by decide)
  · rfl

theorem validateDigest_ok {entry : CopyManifestEntry} (valid : validateDigest entry = .ok ()) :
    (entry.kind = .directory → entry.sha256 = none) ∧
      (entry.kind = .file → entry.sha256.isSome) ∧
      ∀ digest, entry.sha256 = some digest → '\x00' ∉ digest.toList := by
  unfold validateDigest at valid
  cases kind : entry.kind with
  | directory =>
      cases sha256 : entry.sha256 with
      | none => simp
      | some digest =>
          rw [kind, sha256] at valid
          exact nomatch valid
  | file =>
      cases sha256 : entry.sha256 with
      | none =>
          rw [kind, sha256] at valid
          exact nomatch valid
      | some digest =>
          rw [kind, sha256] at valid
          have hexadecimal := Checks.require_eq_ok.mp valid
          rw [validDigest, Bool.and_eq_true, List.all_eq_true] at hexadecimal
          have clean : '\x00' ∉ digest.toList := by
            intro member
            exact absurd (hexadecimal.2 _ member) (by decide)
          simpa using clean

theorem nul_notMem_kindName (kind : CopyEntryKind) : (0 : UInt8) ∉ textBytes (kindName kind) := by
  cases kind <;> decide

theorem notMem_elim {byte : UInt8} {text : Option String}
    (clean : ∀ found, text = some found → byte ∉ textBytes found) :
    byte ∉ text.elim [] textBytes := by
  cases text with
  | none => exact List.not_mem_nil
  | some found => exact clean found rfl

theorem Separable.sha256_eq {first second : CopyManifestEntry} (held : Separable first)
    (other : Separable second) (kinds : first.kind = second.kind)
    (same : first.sha256.elim [] textBytes = second.sha256.elim [] textBytes) :
    first.sha256 = second.sha256 := by
  obtain ⟨bare, filled, _⟩ := validateDigest_ok held.digest
  obtain ⟨otherBare, otherFilled, _⟩ := validateDigest_ok other.digest
  cases kind : first.kind with
  | directory => rw [bare kind, otherBare (kinds ▸ kind)]
  | file =>
      obtain ⟨digest, found⟩ := Option.isSome_iff_exists.mp (filled kind)
      obtain ⟨second, otherFound⟩ := Option.isSome_iff_exists.mp (otherFilled (kinds ▸ kind))
      rw [found, otherFound] at same ⊢
      exact congrArg some (textBytes_injective same)

theorem textBytes_eq_nil {text : String} (empty : textBytes text = []) : text = "" :=
  textBytes_injective empty

theorem Separable.identity_eq {first second : CopyManifestEntry} (held : Separable first)
    (other : Separable second)
    (same : first.entryIdentity.elim [] textBytes = second.entryIdentity.elim [] textBytes) :
    first.entryIdentity = second.entryIdentity := by
  cases found : first.entryIdentity with
  | none =>
      cases otherFound : second.entryIdentity with
      | none => rfl
      | some identity =>
          rw [found, otherFound] at same
          exact absurd (textBytes_eq_nil same.symm) (other.identity identity otherFound).1
  | some identity =>
      cases otherFound : second.entryIdentity with
      | none =>
          rw [found, otherFound] at same
          exact absurd (textBytes_eq_nil same) (held.identity identity found).1
      | some second =>
          rw [found, otherFound] at same
          exact congrArg some (textBytes_injective same)

theorem entryBytes_append {first second : CopyManifestEntry} (held : Separable first)
    (other : Separable second) {rest more : List UInt8}
    (same : entryBytes first ++ rest = entryBytes second ++ more) :
    first = second ∧ rest = more := by
  simp only [entryBytes, List.append_assoc, List.cons_append, List.nil_append] at same
  obtain ⟨paths, same⟩ := Split.append_cons_inj (nul_notMem held.path) (nul_notMem other.path) same
  obtain ⟨kinds, same⟩ := Split.append_cons_inj (nul_notMem_kindName first.kind)
    (nul_notMem_kindName second.kind) same
  obtain ⟨digests, same⟩ := Split.append_cons_inj
    (notMem_elim fun digest found => nul_notMem ((validateDigest_ok held.digest).2.2 _ found))
    (notMem_elim fun digest found => nul_notMem ((validateDigest_ok other.digest).2.2 _ found)) same
  obtain ⟨identities, rests⟩ := Split.append_cons_inj
    (notMem_elim fun identity found => newline_notMem (held.identity _ found).2.2)
    (notMem_elim fun identity found => newline_notMem (other.identity _ found).2.2) same
  have path := textBytes_injective paths
  have kind := textBytes_kindName_injective kinds
  have sha256 := held.sha256_eq other kind digests
  have identity := held.identity_eq other identities
  refine ⟨?_, rests⟩
  cases first
  cases second
  rw [CopyManifestEntry.mk.injEq]
  exact ⟨path, kind, sha256, identity⟩

theorem entryBytes_ne_nil (entry : CopyManifestEntry) (rest : List UInt8) :
    entryBytes entry ++ rest ≠ [] := by
  simp [entryBytes]

theorem flatMap_entryBytes_injective {first second : List CopyManifestEntry}
    (held : ∀ entry ∈ first, Separable entry) (other : ∀ entry ∈ second, Separable entry)
    (same : first.flatMap entryBytes = second.flatMap entryBytes) : first = second := by
  induction first generalizing second with
  | nil =>
      cases second with
      | nil => rfl
      | cons entry rest => exact absurd same.symm (entryBytes_ne_nil entry _)
  | cons entry rest ih =>
      cases second with
      | nil => exact absurd same (entryBytes_ne_nil entry _)
      | cons wanted more =>
          obtain ⟨rfl, rests⟩ := entryBytes_append (held entry List.mem_cons_self)
            (other wanted List.mem_cons_self) same
          rw [ih (fun _ member => held _ (List.mem_cons_of_mem _ member))
            (fun _ member => other _ (List.mem_cons_of_mem _ member)) rests]

structure Digestible (manifest : List CopyManifestEntry) : Prop where
  valid : validateManifest manifest = .ok ()
  paths : ∀ entry ∈ manifest, '\x00' ∉ entry.relativePath.toList
  identities : ∀ entry ∈ manifest, ∀ identity, entry.entryIdentity = some identity →
    identity ≠ "" ∧ '\x00' ∉ identity.toList ∧ '\n' ∉ identity.toList

theorem validateDigest_of_validateManifest {manifest : List CopyManifestEntry}
    (valid : validateManifest manifest = .ok ()) :
    ∀ entry ∈ manifest, validateDigest entry = .ok () := by
  obtain ⟨kinds, folded, _⟩ := Checks.bind_eq_ok.mp valid
  refine Checks.foldlM_invariant (fun passed _ => ∀ entry ∈ passed, validateDigest entry = .ok ())
    (by simp) ?_ folded
  intro passed entry rest kinds next _ held checked other member
  obtain ⟨_, _, checked⟩ := Checks.bind_eq_ok.mp checked
  obtain ⟨_, _, checked⟩ := Checks.bind_eq_ok.mp checked
  obtain ⟨_, _, checked⟩ := Checks.bind_eq_ok.mp checked
  obtain ⟨_, digest, _⟩ := Checks.bind_eq_ok.mp checked
  rcases List.mem_append.mp member with before | here
  · exact held other before
  · exact List.mem_singleton.mp here ▸ digest

theorem Digestible.separable {manifest : List CopyManifestEntry} (digestible : Digestible manifest)
    {entry : CopyManifestEntry} (member : entry ∈ manifest) : Separable entry :=
  ⟨digestible.paths entry member, validateDigest_of_validateManifest digestible.valid entry member,
    digestible.identities entry member⟩

/-- Valid manifests of separable entries are told apart by the bytes that are hashed. -/
theorem manifestPreimage_injective {first second : List CopyManifestEntry}
    (held : Digestible first) (other : Digestible second)
    (same : manifestPreimage first = manifestPreimage second) : first = second := by
  rw [manifestPreimage_eq, manifestPreimage_eq] at same
  exact flatMap_entryBytes_injective (fun _ => held.separable) (fun _ => other.separable) same

def newlineManifest : List CopyManifestEntry :=
  [⟨"a\nb", .directory, none, some "8:1"⟩,
    ⟨"a\nb/c", .file, some (String.ofList (List.replicate 64 'e')), none⟩]

theorem digestible_newlineManifest : Digestible newlineManifest where
  valid := by decide +kernel
  paths := by decide +kernel
  identities := by
    intro entry member identity
    simp only [newlineManifest, List.mem_cons, List.not_mem_nil, or_false] at member
    rcases member with rfl | rfl
    · rintro ⟨⟩
      decide +kernel
    · exact nofun

theorem manifestPreimage_injective_sample :
    sortByPath newlineManifest.reverse = newlineManifest := by
  have sorted : sortByPath newlineManifest.reverse = newlineManifest := by decide +kernel
  exact manifestPreimage_injective (sorted ▸ digestible_newlineManifest) digestible_newlineManifest
    (by decide +kernel)

end EmuChef.CopyCommit
