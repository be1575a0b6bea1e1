import Toolbox8.Base.Texts
import Toolbox8.JarServletJars

set_option autoImplicit false

namespace Toolbox8

open Base

namespace URLEncoder

def hexValue (c : Char) : Nat := if c.isDigit then c.toNat - 48 else c.toNat - 55

-- The bytes of the %-sequences at the front.
def percentBytes : List Char → List UInt8
  | '%' :: high :: low :: rest => UInt8.ofNat (hexValue high * 16 + hexValue low) :: percentBytes rest
  | _ => []

theorem hex_value_digit (n : Nat) (small : n < 16) : hexValue (hexDigit n) = n := by
  have all : ∀ n < 16, hexValue (hexDigit n) = n := by decide
  exact all n small

theorem percent_encoded_byte (b : UInt8) (rest : List Char) : percentBytes (encodeByte b ++ rest) = b :: percentBytes rest := by
  have small := b.toNat_lt
  have whole : b.toNat / 16 * 16 + b.toNat % 16 = b.toNat := Nat.div_add_mod' b.toNat 16
  simp only [encodeByte, List.cons_append, List.nil_append, percentBytes]
  rw [hex_value_digit _ (by omega), hex_value_digit _ (by omega), whole, UInt8.ofNat_toNat]

theorem percent_encoded_bytes (bytes : List UInt8) (rest : List Char) :
    percentBytes (bytes.flatMap encodeByte ++ rest) = bytes ++ percentBytes rest := by
  induction bytes with
  | nil => rfl
  | cons b more ih => rw [List.flatMap_cons, List.append_assoc, percent_encoded_byte, ih, List.cons_append]

theorem utf8_determined (c d : Char) (xs ys : List UInt8)
    (same : String.utf8EncodeChar c ++ xs = String.utf8EncodeChar d ++ ys) : c = d := by
  have arrays := congrArg List.toByteArray same
  rw [List.toByteArray_append, List.toByteArray_append] at arrays
  have decoded := congrArg (fun bytes => bytes.utf8DecodeChar? 0) arrays
  simp only [ByteArray.utf8DecodeChar?_utf8EncodeChar_append] at decoded
  exact Option.some.inj decoded

-- The three kinds of encoded characters start differently.
def leading (c : Char) : Char := if dontNeedEncoding c then c else if c = ' ' then '+' else '%'

theorem encode_char_leading (c : Char) : ∃ rest, encodeChar c = leading c :: rest := by
  rw [encodeChar, leading]
  split
  · exact ⟨[], rfl⟩
  · split
    · exact ⟨[], rfl⟩
    · cases bytes : String.utf8EncodeChar c with
      | nil => exact absurd bytes String.utf8EncodeChar_ne_nil
      | cons b more => exact ⟨_, rfl⟩

theorem leading_plain (c : Char) : dontNeedEncoding (leading c) = dontNeedEncoding c := by
  rw [leading]
  by_cases plain : dontNeedEncoding c
  · rw [if_pos plain]
  · have encoded : dontNeedEncoding c = false := by simpa using plain
    rw [if_neg plain, encoded]
    split
    · decide
    · decide

theorem encode_char_determined (c d : Char) (xs ys : List Char) (same : encodeChar c ++ xs = encodeChar d ++ ys) : c = d := by
  have leads : leading c = leading d := by
    obtain ⟨front, first⟩ := encode_char_leading c
    obtain ⟨back, second⟩ := encode_char_leading d
    rw [first, second, List.cons_append, List.cons_append] at same
    exact (List.cons.inj same).1
  have alike : dontNeedEncoding d = dontNeedEncoding c := by rw [← leading_plain d, ← leads, leading_plain]
  by_cases plain : dontNeedEncoding c
  · rwa [leading, if_pos plain, leading, alike, if_pos plain] at leads
  · by_cases blank : c = ' '
    · by_cases other : d = ' '
      · rw [blank, other]
      · rw [leading, if_neg plain, if_pos blank, leading, alike, if_neg plain, if_neg other] at leads
        exact absurd leads (by decide)
    · by_cases other : d = ' '
      · rw [leading, if_neg plain, if_neg blank, leading, alike, if_neg plain, if_pos other] at leads
        exact absurd leads (by decide)
      · rw [encodeChar, if_neg plain, if_neg blank, encodeChar, alike, if_neg plain, if_neg other] at same
        have bytes := congrArg percentBytes same
        rw [percent_encoded_bytes, percent_encoded_bytes] at bytes
        exact utf8_determined c d _ _ bytes

theorem encode_char_prefix_code : PrefixCode encodeChar := by
  refine ⟨?_, encode_char_determined⟩
  intro c empty
  obtain ⟨rest, first⟩ := encode_char_leading c
  rw [empty] at first
  cases first

theorem encode_injective (a b : String) (same : encode a = encode b) : a = b :=
  String.toList_inj.mp (coded_injective encodeChar encode_char_prefix_code _ _ (String.ofList_injective same))

end URLEncoder

-- Two lists of texts that have a colon equally often in each place but the last one.
def SameColons (as bs : List String) : Prop :=
  as.dropLast.map (fun a => a.toList.count ':') = bs.dropLast.map (fun b => b.toList.count ':')

def colonParts (texts : List String) : List (List Char) := partsOf ':' (texts.map String.toList)

-- Both kinds of coordinates are flattened in the same way.
def flattened (groupId artifactId version classifier hash : String) : String :=
  groupId ++ ":" ++ artifactId ++ ":" ++ version ++ ":" ++ classifier ++ ":" ++ hash ++ ".jar"

theorem flattened_joined (groupId artifactId version classifier hash : String) :
    (flattened groupId artifactId version classifier hash).toList =
      joined ':' ([groupId, artifactId, version, classifier, hash].map String.toList) ++ ".jar".toList := by
  have colon : ":".toList = [':'] := rfl
  simp only [flattened, String.toList_append, colon, joined, List.map_cons, List.map_nil,
    List.intercalate_cons_cons, List.intercalate_singleton, List.append_assoc]

theorem encoded_eq_iff (groupId artifactId version classifier hash groupId' artifactId' version' classifier' hash' : String) :
    URLEncoder.encode (flattened groupId artifactId version classifier hash) =
        URLEncoder.encode (flattened groupId' artifactId' version' classifier' hash') ↔
      colonParts [groupId, artifactId, version, classifier, hash] =
        colonParts [groupId', artifactId', version', classifier', hash'] := by
  have parts := joined_eq_iff ':' groupId.toList groupId'.toList ([artifactId, version, classifier, hash].map String.toList)
    ([artifactId', version', classifier', hash'].map String.toList)
  rw [← List.map_cons, ← List.map_cons] at parts
  rw [colonParts, colonParts, ← parts]
  constructor
  · intro same
    have texts := congrArg String.toList (URLEncoder.encode_injective _ _ same)
    rw [flattened_joined, flattened_joined] at texts
    exact List.append_cancel_right texts
  · intro same
    apply congrArg
    apply String.toList_inj.mp
    rw [flattened_joined, flattened_joined, same]

theorem texts_of_parts (a b : String) (as bs : List String) (colons : SameColons (a :: as) (b :: bs))
    (same : colonParts (a :: as) = colonParts (b :: bs)) : a :: as = b :: bs := by
  apply List.map_injective_iff.mpr (fun _ _ => String.toList_injective)
  apply texts_determined ':' _ _ _ _ _ same
  rw [← List.map_cons, ← List.map_cons, ← List.map_dropLast, ← List.map_dropLast, List.map_map, List.map_map]
  exact colons

theorem absent_or_same (a b : Option String) (absent : a = none ↔ b = none) (same : a.getD "" = b.getD "") : a = b := by
  cases a with
  | none => exact (absent.mp rfl).symm
  | some x =>
      cases b with
      | none => exact absent.mpr rfl
      | some y => exact congrArg some same

namespace StreamApp

def texts (key : JarKey) : List String :=
  [key.groupId, key.artifactId, key.version, key.classifier.getD "", key.hash.getD ""]

theorem cache_file_eq_iff (k₁ k₂ : JarKey) : cacheFile k₁ = cacheFile k₂ ↔ colonParts (texts k₁) = colonParts (texts k₂) :=
  encoded_eq_iff _ _ _ _ _ _ _ _ _ _

theorem key_of_texts (k₁ k₂ : JarKey) (classifier : k₁.classifier = none ↔ k₂.classifier = none)
    (hash : k₁.hash = none ↔ k₂.hash = none) (same : texts k₁ = texts k₂) : k₁ = k₂ := by
  simp only [texts, List.cons.injEq, and_true] at same
  obtain ⟨groupId, artifactId, version, classifiers, hashes⟩ := same
  cases k₁
  cases k₂
  rw [JarKey.mk.injEq]
  exact ⟨groupId, artifactId, version, absent_or_same _ _ classifier classifiers, absent_or_same _ _ hash hashes⟩

end StreamApp

namespace JarServletWsEndpoint

def texts (coords : JarCoords) : List String :=
  [coords.groupId, coords.artifactId, coords.version, coords.classifier.getD "", coords.hash.getD ""]

-- The same coordinates for the other cache, whose files are named in the same way.
def asKey (coords : JarCoords) : JarKey :=
  ⟨coords.groupId, coords.artifactId, coords.version, coords.classifier, coords.hash⟩

theorem as_key_injective (c₁ c₂ : JarCoords) (same : asKey c₁ = asKey c₂) : c₁ = c₂ := by
  cases c₁
  cases c₂
  cases same
  rfl

theorem file_name_eq_iff (c₁ c₂ : JarCoords) : fileName c₁ = fileName c₂ ↔ colonParts (texts c₁) = colonParts (texts c₂) :=
  StreamApp.cache_file_eq_iff (asKey c₁) (asKey c₂)

theorem coords_of_texts (c₁ c₂ : JarCoords) (classifier : c₁.classifier = none ↔ c₂.classifier = none)
    (hash : c₁.hash = none ↔ c₂.hash = none) (same : texts c₁ = texts c₂) : c₁ = c₂ :=
  as_key_injective c₁ c₂ (StreamApp.key_of_texts (asKey c₁) (asKey c₂) classifier hash same)

end JarServletWsEndpoint

namespace JarFileNames

-- The name of one file is that of another where the texts, an absent one being empty, split at the colons into the same
-- parts; with as many colons in every text before the last one, and the same texts absent, the keys are the same.
theorem same_file_same_coordinates :
    (∀ k₁ k₂ : JarKey,
      (StreamApp.cacheFile k₁ = StreamApp.cacheFile k₂ ↔
        colonParts (StreamApp.texts k₁) = colonParts (StreamApp.texts k₂)) ∧
      (SameColons (StreamApp.texts k₁) (StreamApp.texts k₂) → (k₁.classifier = none ↔ k₂.classifier = none) →
        (k₁.hash = none ↔ k₂.hash = none) → StreamApp.cacheFile k₁ = StreamApp.cacheFile k₂ → k₁ = k₂)) ∧
    (∀ c₁ c₂ : JarServletWsEndpoint.JarCoords,
      (JarServletWsEndpoint.fileName c₁ = JarServletWsEndpoint.fileName c₂ ↔
        colonParts (JarServletWsEndpoint.texts c₁) = colonParts (JarServletWsEndpoint.texts c₂)) ∧
      (SameColons (JarServletWsEndpoint.texts c₁) (JarServletWsEndpoint.texts c₂) →
        (c₁.classifier = none ↔ c₂.classifier = none) → (c₁.hash = none ↔ c₂.hash = none) →
        JarServletWsEndpoint.fileName c₁ = JarServletWsEndpoint.fileName c₂ → c₁ = c₂)) := by
  constructor
  · intro k₁ k₂
    refine ⟨StreamApp.cache_file_eq_iff k₁ k₂, ?_⟩
    intro colons classifier hash same
    have parts := (StreamApp.cache_file_eq_iff k₁ k₂).mp same
    exact StreamApp.key_of_texts k₁ k₂ classifier hash (texts_of_parts _ _ _ _ colons parts)
  · intro c₁ c₂
    refine ⟨JarServletWsEndpoint.file_name_eq_iff c₁ c₂, ?_⟩
    intro colons classifier hash same
    have parts := (JarServletWsEndpoint.file_name_eq_iff c₁ c₂).mp same
    exact JarServletWsEndpoint.coords_of_texts c₁ c₂ classifier hash (texts_of_parts _ _ _ _ colons parts)

-- Two builds of a snapshot, an empty and an absent text, and a colon in two places.
def build : JarKey := ⟨"a", "b", "1-SNAPSHOT", none, some "20:16"⟩

def rebuild : JarKey := ⟨"a", "b", "1-SNAPSHOT", none, some "20:17"⟩

def plain : JarKey := ⟨"a", "b", "1", none, none⟩

def unclassified : JarKey := ⟨"a", "b", "1", some "", none⟩

def colonFirst : JarKey := ⟨"a:b", "c", "1", none, none⟩

def colonSecond : JarKey := ⟨"a", "b:c", "1", none, none⟩

def coords (key : JarKey) : JarServletWsEndpoint.JarCoords :=
  ⟨key.groupId, key.artifactId, key.version, key.classifier, key.hash⟩

theorem same_file_same_coordinates_snapshot : StreamApp.cacheFile build ≠ StreamApp.cacheFile rebuild := by
  intro same
  have key := (same_file_same_coordinates.1 build rebuild).2 (by unfold SameColons; rfl) (by decide) (by decide) same
  exact absurd key (by decide)

theorem shared_file :
    (plain ≠ unclassified ∧ StreamApp.cacheFile plain = StreamApp.cacheFile unclassified) ∧
    (colonFirst ≠ colonSecond ∧ StreamApp.cacheFile colonFirst = StreamApp.cacheFile colonSecond) ∧
    (coords plain ≠ coords unclassified ∧
      JarServletWsEndpoint.fileName (coords plain) = JarServletWsEndpoint.fileName (coords unclassified)) ∧
    coords colonFirst ≠ coords colonSecond ∧
      JarServletWsEndpoint.fileName (coords colonFirst) = JarServletWsEndpoint.fileName (coords colonSecond) := by
  refine ⟨⟨by decide, ?_⟩, ⟨by decide, ?_⟩, ⟨by decide, ?_⟩, by decide, ?_⟩
  · exact (StreamApp.cache_file_eq_iff _ _).mpr (by decide)
  · exact (StreamApp.cache_file_eq_iff _ _).mpr (by decide)
  · exact (JarServletWsEndpoint.file_name_eq_iff _ _).mpr (by decide)
  · exact (JarServletWsEndpoint.file_name_eq_iff _ _).mpr (by decide)

end JarFileNames

end Toolbox8
