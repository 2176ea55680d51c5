import Mathlib.Algebra.Order.Ring.Nat
import Mathlib.Algebra.Order.Sub.Basic

/-! Base64 decoders over bytes: line breaks are skipped anywhere, then four characters
give three bytes. -/

namespace Agentnet.Lib

/-- A Go `[]byte`. -/
abbrev Bytes := List UInt8

namespace Base64

/-- An encoding: the value of each character, the padding character if there is one, and
whether the bits past the last byte must be zero. -/
structure Encoding where
  index : UInt8 → Option Nat
  pad : Option UInt8 := none
  strict : Bool := false

def isBreak (c : UInt8) : Bool := c == 10 || c == 13

def byte (n : Nat) : UInt8 := UInt8.ofNat n

def lastOne (enc : Encoding) (x y : Nat) : Option Bytes :=
  if enc.strict && y % 16 != 0 then none else some [byte (x * 4 + y / 16)]

def lastTwo (enc : Encoding) (x y z : Nat) : Option Bytes :=
  if enc.strict && z % 4 != 0 then none
  else some [byte (x * 4 + y / 16), byte (y % 16 * 16 + z / 4)]

/-- Four characters at a time; the last group may be shorter or padded. -/
def groups (enc : Encoding) : Bytes → Option Bytes
  | [] => some []
  | [_] => none
  | [a, b] =>
    if enc.pad.isSome then none
    else do lastOne enc (← enc.index a) (← enc.index b)
  | [a, b, c] =>
    if enc.pad.isSome then none
    else do lastTwo enc (← enc.index a) (← enc.index b) (← enc.index c)
  | a :: b :: c :: d :: rest => do
    let x ← enc.index a
    let y ← enc.index b
    match enc.index c, enc.index d with
    | some z, some w => do
      let tail ← groups enc rest
      return byte (x * 4 + y / 16) :: byte (y % 16 * 16 + z / 4) :: byte (z % 4 * 64 + w) :: tail
    | some z, none => if some d = enc.pad ∧ rest = [] then lastTwo enc x y z else none
    | none, _ => if some c = enc.pad ∧ some d = enc.pad ∧ rest = [] then lastOne enc x y else none

def decode (enc : Encoding) (s : Bytes) : Option Bytes := groups enc (s.filter fun c => !isBreak c)

/-- A text without its padding: at most two characters at the end. -/
def unpadded (p : UInt8) (s : Bytes) : Bytes :=
  if s.getLast? = some p then
    if s.dropLast.getLast? = some p then s.dropLast.dropLast else s.dropLast
  else s

theorem unpadded_cons (p a : UInt8) {s : Bytes} (two : 2 ≤ s.length) : unpadded p (a :: s) = a :: unpadded p s := by
  match s, two with
  | b :: c :: rest, _ =>
    have last : (a :: b :: c :: rest).getLast? = (b :: c :: rest).getLast? := by simp
    have before : (a :: (b :: c :: rest).dropLast).getLast? = (b :: c :: rest).dropLast.getLast? := by
      simp
    unfold unpadded
    rw [last, List.dropLast_cons_cons, before]
    split
    · split
      · rw [List.dropLast_cons_of_ne_nil (by simp)]
      · rfl
    · rfl

variable {enc : Encoding} {p : UInt8}

theorem groups_cons (a b c d e : UInt8) (rest : Bytes) : (groups enc (a :: b :: c :: d :: e :: rest)).isSome = true ↔
      (enc.index a).isSome = true ∧ (enc.index b).isSome = true ∧ (enc.index c).isSome = true ∧
        (enc.index d).isSome = true ∧ (groups enc (e :: rest)).isSome = true := by
  rw [groups]
  cases ha : enc.index a <;> cases hb : enc.index b <;> cases hc : enc.index c <;>
    cases hd : enc.index d <;> cases hr : groups enc (e :: rest) <;> simp

/-- What a padded decoder accepts: whole groups of letters, up to the padding. -/
theorem groups_isSome (padded : enc.pad = some p) (outside : enc.index p = none)
    (lax : enc.strict = false) (s : Bytes) :
    (groups enc s).isSome = true ↔ s.length % 4 = 0 ∧ ∀ c ∈ unpadded p s, (enc.index c).isSome = true := by
  match s with
  | [] => simp [groups, unpadded]
  | [a] => simp [groups]
  | [a, b] => simp [groups, padded]
  | [a, b, c] => simp [groups, padded]
  | [a, b, c, d] =>
    unfold groups
    by_cases dp : d = p
    · subst dp
      by_cases cp : c = d
      · subst cp
        cases ha : enc.index a <;> cases hb : enc.index b <;>
          simp [unpadded, outside, padded, lastOne, lax, ha, hb]
      · cases ha : enc.index a <;> cases hb : enc.index b <;> cases hc : enc.index c <;>
          simp [unpadded, outside, padded, lastTwo, lax, ha, hb, hc, cp]
    · cases ha : enc.index a <;> cases hb : enc.index b <;> cases hc : enc.index c <;>
        cases hd : enc.index d <;> simp [unpadded, padded, groups, dp, ha, hb, hc, hd]
  | a :: b :: c :: d :: e :: rest =>
    have ih := groups_isSome padded outside lax (e :: rest)
    rw [groups_cons]
    constructor
    · rintro ⟨ha, hb, hc, hd, more⟩
      obtain ⟨whole, inside⟩ := ih.mp more
      have long : 2 ≤ (e :: rest).length := by
        simp only [List.length_cons] at whole ⊢
        omega
      refine ⟨by simp only [List.length_cons] at whole ⊢; omega, ?_⟩
      rw [unpadded_cons p a (by simp), unpadded_cons p b (by simp), unpadded_cons p c (by simp),
        unpadded_cons p d long]
      simp only [List.mem_cons, forall_eq_or_imp]
      exact ⟨ha, hb, hc, hd, inside⟩
    · rintro ⟨whole, inside⟩
      have long : 2 ≤ (e :: rest).length := by
        simp only [List.length_cons] at whole ⊢
        omega
      rw [unpadded_cons p a (by simp), unpadded_cons p b (by simp), unpadded_cons p c (by simp),
        unpadded_cons p d long] at inside
      simp only [List.mem_cons, forall_eq_or_imp] at inside
      obtain ⟨ha, hb, hc, hd, inside⟩ := inside
      refine ⟨ha, hb, hc, hd, ih.mpr ⟨?_, inside⟩⟩
      simp only [List.length_cons] at whole ⊢
      omega

theorem decode_of_no_break {s : Bytes} (plain : ∀ c ∈ s, isBreak c = false) : decode enc s = groups enc s := by
  unfold decode
  rw [List.filter_eq_self.mpr]
  intro c member
  rw [plain c member]
  rfl

def encode (letter : Nat → UInt8) : Bytes → Bytes
  | [] => []
  | [a] => [letter (a.toNat / 4), letter (a.toNat % 4 * 16)]
  | [a, b] => [letter (a.toNat / 4), letter (a.toNat % 4 * 16 + b.toNat / 16), letter (b.toNat % 16 * 4)]
  | a :: b :: c :: rest =>
    letter (a.toNat / 4) :: letter (a.toNat % 4 * 16 + b.toNat / 16) :: letter (b.toNat % 16 * 4 + c.toNat / 64) ::
      letter (c.toNat % 64) :: encode letter rest

theorem length_encode (letter : Nat → UInt8) (s : Bytes) : (encode letter s).length = (s.length * 8 + 5) / 6 := by
  fun_induction encode letter s with
  | case1 => rfl
  | case2 | case3 => simp
  | case4 a b c rest ih =>
    simp only [List.length_cons, ih]
    omega

theorem encode_letters (letter : Nat → UInt8) (s : Bytes) : ∀ c ∈ encode letter s, ∃ n < 64, c = letter n := by
  fun_induction encode letter s with
  | case1 => exact fun _ none_ => (by cases none_)
  | case2 a =>
    have small := a.toNat_lt
    simp only [List.forall_mem_cons]
    exact ⟨⟨_, by omega, rfl⟩, ⟨_, by omega, rfl⟩, fun _ none_ => (by cases none_)⟩
  | case3 a b =>
    have small := a.toNat_lt
    have small' := b.toNat_lt
    simp only [List.forall_mem_cons]
    exact ⟨⟨_, by omega, rfl⟩, ⟨_, by omega, rfl⟩, ⟨_, by omega, rfl⟩, fun _ none_ => (by cases none_)⟩
  | case4 a b c rest ih =>
    have small := a.toNat_lt
    have small' := b.toNat_lt
    have small'' := c.toNat_lt
    simp only [List.forall_mem_cons]
    exact ⟨⟨_, by omega, rfl⟩, ⟨_, by omega, rfl⟩, ⟨_, by omega, rfl⟩, ⟨_, by omega, rfl⟩, ih⟩

variable {letter : Nat → UInt8} (inverse : ∀ n < 64, enc.index (letter n) = some n)
include inverse

theorem groups_encode (plain : enc.pad = none) (s : Bytes) : groups enc (encode letter s) = some s := by
  have whole : ∀ (a : UInt8) n, n = a.toNat → byte n = a := fun a n e => e ▸ UInt8.ofNat_toNat
  fun_induction encode letter s with
  | case1 => rfl
  | case2 a =>
    have small := a.toNat_lt
    have zero : (a.toNat % 4 * 16) % 16 = 0 := by omega
    simp only [groups, plain, Option.isSome_none, Bool.false_eq_true, if_false, inverse (a.toNat / 4) (by omega),
      inverse (a.toNat % 4 * 16) (by omega), Option.bind_eq_bind, Option.bind_some, lastOne, zero, bne_self_eq_false,
      Bool.and_false, whole a _ (by omega : a.toNat / 4 * 4 + a.toNat % 4 * 16 / 16 = a.toNat)]
  | case3 a b =>
    have small := a.toNat_lt
    have small' := b.toNat_lt
    have zero : (b.toNat % 16 * 4) % 4 = 0 := by omega
    simp only [groups, plain, Option.isSome_none, Bool.false_eq_true, if_false, inverse (a.toNat / 4) (by omega),
      inverse (a.toNat % 4 * 16 + b.toNat / 16) (by omega), inverse (b.toNat % 16 * 4) (by omega),
      Option.bind_eq_bind, Option.bind_some, lastTwo, zero, bne_self_eq_false, Bool.and_false,
      whole a _ (by omega : a.toNat / 4 * 4 + (a.toNat % 4 * 16 + b.toNat / 16) / 16 = a.toNat),
      whole b _ (by omega : (a.toNat % 4 * 16 + b.toNat / 16) % 16 * 16 + b.toNat % 16 * 4 / 4 = b.toNat)]
  | case4 a b c rest ih =>
    have small := a.toNat_lt
    have small' := b.toNat_lt
    have small'' := c.toNat_lt
    rw [groups, inverse (a.toNat / 4) (by omega), inverse (a.toNat % 4 * 16 + b.toNat / 16) (by omega),
      inverse (b.toNat % 16 * 4 + c.toNat / 64) (by omega), inverse (c.toNat % 64) (by omega), ih]
    simp only [Option.bind_eq_bind, Option.bind_some, Option.pure_def]
    rw [whole a _ (by omega), whole b _ (by omega), whole c _ (by omega)]

theorem getLast_encode (s : Bytes) (some_ : encode letter s ≠ []) :
    ∃ v, enc.index ((encode letter s).getLast some_) = some v ∧
    v % 2 ^ ((encode letter s).length * 6 - s.length * 8) = 0 := by
  fun_induction encode letter s with
  | case1 => exact absurd rfl some_
  | case2 a => exact ⟨a.toNat % 4 * 16, inverse _ (by omega), by simp⟩
  | case3 a b => exact ⟨b.toNat % 16 * 4, inverse _ (by omega), by simp⟩
  | case4 a b c rest ih =>
    by_cases more : encode letter rest = []
    · have none_ : rest.length = 0 := by
        have size := length_encode letter rest
        rw [more, List.length_nil] at size
        omega
      refine ⟨c.toNat % 64, ?_, ?_⟩
      · simpa [more] using inverse (c.toNat % 64) (by omega)
      · simp [more, none_, Nat.mod_one]
    · obtain ⟨v, last, zero⟩ := ih more
      refine ⟨v, ?_, ?_⟩
      · simpa [List.getLast_cons, more] using last
      · have shift : (encode letter rest).length * 6 - rest.length * 8 =
            ((encode letter rest).length + 1 + 1 + 1 + 1) * 6 - (rest.length + 1 + 1 + 1) * 8 := by omega
        simp only [List.length_cons]
        rw [← shift]
        exact zero

omit inverse in
/-- A strict decoder without padding takes no other text than the encoded one. -/
theorem encode_groups (plain : enc.pad = none) (strict : enc.strict = true)
    (letters : ∀ c n, enc.index c = some n → n < 64 ∧ letter n = c) {s b : Bytes} (read : groups enc s = some b) :
    encode letter b = s := by
  have value : ∀ n < 256, (byte n).toNat = n :=
    fun n small => by rw [byte, UInt8.toNat_ofNat', Nat.mod_eq_of_lt small]
  fun_induction groups enc s generalizing b with
  | case1 =>
    cases read
    rfl
  | case2 | case3 | case5 => cases read
  | case4 c d =>
    simp only [Option.bind_eq_bind, Option.bind_eq_some_iff, lastOne, strict, Bool.true_and] at read
    obtain ⟨x, atX, y, atY, read⟩ := read
    obtain ⟨smallX, rfl⟩ := letters c x atX
    obtain ⟨smallY, rfl⟩ := letters d y atY
    split at read
    · cases read
    · next zero =>
      have zero : y % 16 = 0 := by simpa using zero
      cases read
      rw [encode, value _ (by omega), (by omega : (x * 4 + y / 16) / 4 = x),
        (by omega : (x * 4 + y / 16) % 4 * 16 = y)]
  | case6 c d e =>
    simp only [Option.bind_eq_bind, Option.bind_eq_some_iff, lastTwo, strict, Bool.true_and] at read
    obtain ⟨x, atX, y, atY, z, atZ, read⟩ := read
    obtain ⟨smallX, rfl⟩ := letters c x atX
    obtain ⟨smallY, rfl⟩ := letters d y atY
    obtain ⟨smallZ, rfl⟩ := letters e z atZ
    split at read
    · cases read
    · next zero =>
      have zero : z % 4 = 0 := by simpa using zero
      cases read
      rw [encode, value _ (by omega), value _ (by omega), (by omega : (x * 4 + y / 16) / 4 = x),
        (by omega : (x * 4 + y / 16) % 4 * 16 + (y % 16 * 16 + z / 4) / 16 = y),
        (by omega : (y % 16 * 16 + z / 4) % 16 * 4 = z)]
  | case7 c d e f rest ih =>
    simp only [Option.bind_eq_bind, Option.bind_eq_some_iff, plain, reduceCtorEq, false_and,
      and_false, if_false] at read
    obtain ⟨x, atX, y, atY, read⟩ := read
    obtain ⟨smallX, rfl⟩ := letters c x atX
    obtain ⟨smallY, rfl⟩ := letters d y atY
    split at read
    · next z w atZ atW =>
      obtain ⟨smallZ, rfl⟩ := letters e z atZ
      obtain ⟨smallW, rfl⟩ := letters f w atW
      obtain ⟨tail, more, same⟩ := Option.bind_eq_some_iff.mp read
      cases same
      rw [encode, ih more, value _ (by omega), value _ (by omega), value _ (by omega),
        (by omega : (x * 4 + y / 16) / 4 = x),
        (by omega : (x * 4 + y / 16) % 4 * 16 + (y % 16 * 16 + z / 4) / 16 = y),
        (by omega : (y % 16 * 16 + z / 4) % 16 * 4 + (z % 4 * 64 + w) / 64 = z),
        (by omega : (z % 4 * 64 + w) % 64 = w)]
    · cases read
    · cases read

end Base64

end Agentnet.Lib
