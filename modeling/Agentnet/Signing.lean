import Mathlib.Data.List.GetD
import Agentnet.Lib.Base64
import Agentnet.Lib.Except

/-! Keys and signatures: strict base64url, and what is taken as given of ed25519. -/

namespace Agentnet.Signing

open Lib

/-! ## Texts and bytes -/

def textBytes (s : String) : Bytes := s.toList.flatMap String.utf8EncodeChar

def asciiText (s : Bytes) : String := String.ofList (s.map fun b => Char.ofNat b.toNat)

theorem textBytes_ascii {s : Bytes} (h : ∀ b ∈ s, b.toNat < 128) : textBytes (asciiText s) = s := by
  rw [textBytes, asciiText, String.toList_ofList]
  induction s with
  | nil => rfl
  | cons b s ih =>
    have small := h b List.mem_cons_self
    have valid : b.toNat.isValidChar := .inl (by omega)
    have value : (Char.ofNat b.toNat).val.toNat = b.toNat := by
      rw [Char.ofNat, dif_pos valid]
      rfl
    have one : String.utf8EncodeChar (Char.ofNat b.toNat) = [b] := by
      rw [String.utf8EncodeChar]
      simp only [value]
      rw [if_pos (by omega), UInt8.ofNat_toNat]
    rw [List.map_cons, List.flatMap_cons, one, ih fun c mem => h c (List.mem_cons_of_mem b mem)]
    rfl

theorem fromUTF8?_iff {data : ByteArray} {text : String} :
    String.fromUTF8? data = some text ↔ data = text.toUTF8 := by
  constructor
  · intro found
    rw [String.fromUTF8?] at found
    split at found
    · cases found
      rfl
    · cases found
  · rintro rfl
    exact dif_pos text.isValidUTF8

/-! ## Strict base64url -/

/-- `b64Alphabet`, in value order. -/
def b64Alphabet : Bytes :=
  "ABCDEFGHIJKLMNOPQRSTUVWXYZabcdefghijklmnopqrstuvwxyz0123456789-_".toList.map fun c => UInt8.ofNat c.toNat

def index (c : UInt8) : Option Nat := if c ∈ b64Alphabet then some (b64Alphabet.idxOf c) else none

/-- The character of six bits. -/
def letter (n : Nat) : UInt8 := b64Alphabet.getD n 0

/-- `base64.RawURLEncoding.Strict()`. -/
def b64 : Base64.Encoding where
  index := index
  strict := true

def encodeToString (s : Bytes) : String := asciiText (Base64.encode letter s)

def decodeString (s : String) : Option Bytes := Base64.decode b64 (textBytes s)

/-- `decodeStrict` of `n` bytes, of a string that need not be UTF-8: the length, the alphabet and the unused bits
are checked on the text first, since the decoder skips line breaks. -/
def decodeStrictBytes (text : Bytes) (n : Nat) : Option Bytes :=
  if text.length ≠ (n * 8 + 5) / 6 then none
  else if text.any fun c => (index c).isNone then none
  else if (text.getLast?.bind index).any fun v => v % 2 ^ (text.length * 6 - n * 8) ≠ 0 then none
  else (Base64.decode b64 text).filter fun b => b.length = n

def decodeStrict (s : String) (n : Nat) : Option Bytes := decodeStrictBytes (textBytes s) n

theorem index_letter : ∀ n < 64, index (letter n) = some n := by decide +kernel

theorem letter_ascii : ∀ n < 64, (letter n).toNat < 128 ∧ Base64.isBreak (letter n) = false := by decide +kernel

theorem textBytes_encodeToString (s : Bytes) : textBytes (encodeToString s) = Base64.encode letter s := by
  refine textBytes_ascii fun c mem => ?_
  obtain ⟨n, low, rfl⟩ := Base64.encode_letters letter s c mem
  exact (letter_ascii n low).1

theorem decodeString_encodeToString (s : Bytes) : decodeString (encodeToString s) = some s := by
  rw [decodeString, textBytes_encodeToString, Base64.decode_of_no_break, Base64.groups_encode index_letter rfl]
  intro c mem
  obtain ⟨n, low, rfl⟩ := Base64.encode_letters letter s c mem
  exact (letter_ascii n low).2

/-- A key or a signature is read back. -/
theorem decodeStrict_encodeToString (s : Bytes) : decodeStrict (encodeToString s) s.length = some s := by
  have inside : ¬((Base64.encode letter s).any fun c => (index c).isNone) = true := by
    rw [List.any_eq_true]
    rintro ⟨c, mem, outside⟩
    obtain ⟨n, low, rfl⟩ := Base64.encode_letters letter s c mem
    rw [index_letter n low] at outside
    cases outside
  have bits : ¬((Base64.encode letter s).getLast?.bind index).any
      (fun v => v % 2 ^ ((Base64.encode letter s).length * 6 - s.length * 8) ≠ 0) = true := by
    by_cases none_ : Base64.encode letter s = []
    · rw [none_]
      exact Bool.false_ne_true
    · obtain ⟨v, last, zero⟩ : ∃ v, b64.index ((Base64.encode letter s).getLast none_) = some v ∧
          v % 2 ^ ((Base64.encode letter s).length * 6 - s.length * 8) = 0 :=
            Base64.getLast_encode index_letter s none_
      have last' : index ((Base64.encode letter s).getLast none_) = some v := last
      simp [List.getLast?_eq_some_getLast none_, last', zero]
  have decoded := decodeString_encodeToString s
  rw [decodeString, textBytes_encodeToString] at decoded
  rw [decodeStrict, decodeStrictBytes, textBytes_encodeToString, decoded,
    if_neg (not_not.mpr (Base64.length_encode letter s)), if_neg inside, if_neg bits]
  simp

theorem textBytes_injective {s t : String} (same : textBytes s = textBytes t) : s = t := by
  rw [← String.toByteArray_inj, ← String.utf8Encode_toList, ← String.utf8Encode_toList]
  exact congrArg List.toByteArray same

theorem letter_index {c : UInt8} {n : Nat} (found : index c = some n) : n < 64 ∧ letter n = c := by
  unfold index at found
  split at found
  · next mem =>
    obtain rfl : b64Alphabet.idxOf c = n := Option.some.inj found
    have inside := List.idxOf_lt_length_of_mem mem
    exact ⟨inside, by rw [letter, List.getD_eq_getElem _ _ inside, List.getElem_idxOf]⟩
  · cases found

/-- Every text that is read is the one encoding of its bytes. -/
theorem encode_of_decodeStrictBytes {s b : Bytes} {n : Nat} (read : decodeStrictBytes s n = some b) :
    b.length = n ∧ s = Base64.encode letter b := by
  unfold decodeStrictBytes at read
  split at read
  · cases read
  split at read
  · cases read
  next inside =>
  split at read
  · cases read
  obtain ⟨decoded, length⟩ := Option.filter_eq_some_iff.mp read
  have plain : ∀ c ∈ s, Base64.isBreak c = false := by
    intro c mem
    obtain ⟨v, found⟩ : ∃ v, index c = some v := by
      rw [← Option.isSome_iff_exists, ← Option.not_isNone, Bool.not_eq_true']
      exact Bool.eq_false_iff.mpr fun outside => inside (List.any_eq_true.mpr ⟨c, mem, outside⟩)
    obtain ⟨small, rfl⟩ := letter_index found
    exact (letter_ascii v small).2
  rw [Base64.decode_of_no_break plain] at decoded
  exact ⟨by simpa using length, (Base64.encode_groups rfl rfl (fun _ _ => letter_index) decoded).symm⟩

/-- A key or a signature has one accepted spelling, and it is the encoded one. -/
theorem decodeStrict_iff (n : Nat) :
    (∀ s b, decodeStrictBytes s n = some b ↔ b.length = n ∧ s = Base64.encode letter b) ∧
    (∀ s b, decodeStrict s n = some b ↔ b.length = n ∧ s = encodeToString b) ∧
    ∀ s t b, decodeStrictBytes s n = some b → decodeStrictBytes t n = some b → s = t := by
  have bytes : ∀ s b, decodeStrictBytes s n = some b ↔ b.length = n ∧ s = Base64.encode letter b := by
    refine fun s b => ⟨encode_of_decodeStrictBytes, ?_⟩
    rintro ⟨rfl, rfl⟩
    have read := decodeStrict_encodeToString b
    rwa [decodeStrict, textBytes_encodeToString] at read
  refine ⟨bytes, fun s b => ?_, fun s t b first second => ?_⟩
  · rw [decodeStrict, bytes, ← textBytes_encodeToString]
    exact and_congr_right fun _ => ⟨textBytes_injective, congrArg textBytes⟩
  · rw [((bytes s b).mp first).2, ((bytes t b).mp second).2]

/-- Two spellings of one byte for a decoder that ignores the unused bits. -/
theorem decodeStrict_one_byte :
    (decodeStrict "AQ" 1 = some [1] ↔ [(1 : UInt8)].length = 1 ∧ "AQ" = encodeToString [1]) ∧
    decodeStrict "AQ" 1 = some [1] ∧ decodeStrict "AR" 1 = none :=
  ⟨(decodeStrict_iff 1).2.1 "AQ" [1], by decide +kernel, by decide +kernel⟩

theorem length_encodeToString (s : Bytes) : (encodeToString s).length = (s.length * 8 + 5) / 6 := by
  rw [encodeToString, asciiText, String.length_ofList, List.length_map, Base64.length_encode]

theorem encodeToString_chars (s : Bytes) :
    ∀ c ∈ (encodeToString s).toList, ∃ n < 64, c = Char.ofNat (letter n).toNat := by
  rw [encodeToString, asciiText, String.toList_ofList]
  intro c mem
  obtain ⟨b, letters, rfl⟩ := List.mem_map.mp mem
  obtain ⟨n, low, rfl⟩ := Base64.encode_letters letter s b letters
  exact ⟨n, low, rfl⟩

/-! ## Signatures -/

/-- What is taken as given. A private key holds its public half in its last 32 bytes. -/
structure Ed25519 where
  sign : Bytes → String → Bytes
  verify : Bytes → String → Bytes → Bool
  Generated : Bytes → Prop
  sign_length : ∀ priv msg, (sign priv msg).length = 64
  key_length : ∀ priv, Generated priv → priv.length = 64
  verify_sign : ∀ priv msg, Generated priv → verify (priv.drop 32) msg (sign priv msg) = true

/-- `priv.Public()`. -/
def publicKey (priv : Bytes) : Bytes := priv.drop 32

/-- A byte for each place, which every character of the text goes into. -/
def tagOf (msg : String) : Bytes :=
  (List.range 32).map fun i => UInt8.ofNat (msg.toList.foldl (fun n c => (n * 31 + c.toNat) % 65521) i)

/-- A scheme for examples, in which a signature is bound to its message and its key. -/
def sampleScheme : Ed25519 where
  sign priv msg := tagOf msg ++ (priv.drop 32 ++ List.replicate 32 0).take 32
  verify pub msg sig := sig = tagOf msg ++ pub
  Generated priv := priv.length = 64
  sign_length priv _ := by simp [tagOf]
  key_length _ h := h
  verify_sign priv _ h := by
    have key : (priv.drop 32).length = 32 := by rw [List.length_drop, h]
    rw [List.take_left' key]
    exact decide_eq_true rfl

end Agentnet.Signing
