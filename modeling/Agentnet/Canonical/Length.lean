import Agentnet.Canonical.NormalForm

/-! The canonical text of what a document holds is no longer than the document. -/

namespace Agentnet.Canonical

open Lib

/-! ## Tokens -/

/-- An escape is at most a `\u` with four digits. -/
theorem bytes_escapeChar (c : Char) : bytes (escapeChar c) ≤ 6 := by
  have size := Char.utf8Size_le_four c
  have ascii : ∀ n < 16, (hexDigit n).utf8Size = 1 := by decide
  rw [escapeChar]
  split
  · decide
  split
  · decide
  split
  · decide
  split
  · decide
  split
  · decide
  split
  · decide
  split
  · decide
  split
  · next low =>
    have high : ('\\'.utf8Size = 1 ∧ 'u'.utf8Size = 1) ∧ '0'.utf8Size = 1 := by decide
    simp only [bytes_cons, bytes_nil, high, ascii (c.toNat / 16) (by omega), ascii (c.toNat % 16) (by omega)]
    omega
  · rw [bytes_cons, bytes_nil]
    omega

variable {c : Char} {cs rest int : List Char}

theorem utf8Size_ascii (h : c.toNat < 0x80) : c.utf8Size = 1 :=
  Char.utf8Size_eq_one_iff.mpr (UInt32.le_iff_toNat_le.mpr (Nat.lt_succ_iff.mp h))

theorem hexValue_size {v : Nat} (h : hexValue c = some v) : c.utf8Size = 1 := by
  refine utf8Size_ascii ?_
  rw [hexValue] at h
  split at h
  · next range => exact lt_of_le_of_lt (UInt32.le_iff_toNat_le.mp range.2) (by decide)
  split at h
  · next range => exact lt_of_le_of_lt (UInt32.le_iff_toNat_le.mp range.2) (by decide)
  split at h
  · next range => exact lt_of_le_of_lt (UInt32.le_iff_toNat_le.mp range.2) (by decide)
  · cases h

theorem hex4_bytes {v : Nat} (h : hex4 cs = some (v, rest)) : bytes cs = 4 + bytes rest := by
  unfold hex4 at h
  split at h
  · next a b c d rest' =>
    simp only [Option.bind_eq_bind, Option.bind_eq_some_iff, Option.pure_def, Option.some.injEq, Prod.mk.injEq] at h
    obtain ⟨_, one, _, two, _, three, _, four, -, rfl⟩ := h
    simp only [bytes_cons, hexValue_size one, hexValue_size two, hexValue_size three, hexValue_size four]
    omega
  · cases h

theorem lexUnit_bytes (v : Nat) (rest : List Char) : bytes (lexUnit v rest).2 ≤ bytes rest := by
  unfold lexUnit
  split
  · split
    · next digits =>
      split
      · next lo left read =>
        have size := hex4_bytes read
        split
        · simp only [bytes_cons]
          omega
        · exact le_rfl
      · exact le_rfl
    · exact le_rfl
  · split <;> exact le_rfl

/-- Two bytes and more are read for what `writeString` writes in two, six for what it writes in
more. -/
theorem lexEscape_bytes (h : lexEscape cs = some (c, rest)) : bytes (escapeChar c) + bytes rest ≤ 1 + bytes cs := by
  unfold lexEscape at h
  split at h
  case h_9 digits =>
    obtain ⟨⟨v, left⟩, read, e⟩ := Option.map_eq_some_iff.mp h
    have size := hex4_bytes read
    have unit := lexUnit_bytes v left
    have most := bytes_escapeChar c
    have u : 'u'.utf8Size = 1 := by decide
    have e' : lexUnit v left = (c, rest) := e
    rw [e'] at unit
    rw [bytes_cons, u]
    dsimp only at unit
    omega
  case h_10 => cases h
  all_goals
    cases h
    rw [bytes_cons, ← Nat.add_assoc]
    exact Nat.add_le_add_right (by decide) _

/-- One character of a string. -/
theorem lexChar_bytes (h : lexChar cs = some (c, rest)) (first : cs.head? ≠ some '"') :
    bytes (escapeChar c) + bytes rest ≤ bytes cs := by
  cases cs with
  | nil => cases h
  | cons d cs =>
    rw [lexChar] at h
    split at h
    · next escape =>
      have size := lexEscape_bytes h
      have one : '\\'.utf8Size = 1 := by decide
      rw [bytes_cons, escape, one]
      exact size
    · next plain =>
      split at h
      · cases h
      · next control =>
        obtain ⟨same, same'⟩ := Prod.mk.inj (Option.some.inj h)
        rw [← same, ← same']
        have quote : d ≠ '"' := fun e => first (by rw [e]; rfl)
        have written : escapeChar d = [d] := by
          have other : ∀ c : Char, c.toNat < 0x20 → d ≠ c := fun c low e => control (e ▸ low)
          rw [escapeChar, if_neg quote, if_neg plain, if_neg (other _ (by decide)), if_neg (other _ (by decide)),
            if_neg (other _ (by decide)), if_neg (other _ (by decide)), if_neg (other _ (by decide)), if_neg control]
        rw [written, bytes_cons, bytes_cons, bytes_nil, Nat.add_zero]

/-- A string too, which may get shorter by its escapes. -/
theorem lexString_bytes {n : Nat} {s : List Char} (h : lexString n cs = some (s, rest)) :
    bytes (s.flatMap escapeChar) + 1 + bytes rest ≤ bytes cs := by
  induction n generalizing cs s with
  | zero => cases h
  | succ n ih =>
    cases cs with
    | nil => cases h
    | cons c cs =>
      rw [lexString] at h
      split at h
      · next closing =>
        cases h
        have one : '"'.utf8Size = 1 := by decide
        rw [bytes_cons, closing, one]
        exact le_of_eq (by simp)
      · next inside =>
        simp only [Option.bind_eq_bind, Option.bind_eq_some_iff, Option.pure_def, Option.some.injEq,
          Prod.mk.injEq] at h
        obtain ⟨⟨x, left⟩, one, ⟨xs, left'⟩, more, rfl, rfl⟩ := h
        have size := lexChar_bytes one (fun e => inside (Option.some.inj e))
        have sizes := ih more
        rw [List.flatMap_cons, bytes_append]
        dsimp only at size sizes ⊢
        omega

/-! ## Numbers -/

theorem ofDigitChars_lt (h : ∀ c ∈ cs, c.isDigit = true) : Nat.ofDigitChars 10 cs 0 < 10 ^ cs.length := by
  induction cs with
  | nil => decide
  | cons c cs ih =>
    have digit := Char.isDigit_iff_toNat.mp (h c List.mem_cons_self)
    have rest := ih fun d mem => h d (List.mem_cons_of_mem c mem)
    have nine : '9'.toNat = 57 ∧ '0'.toNat = 48 := by decide
    have value : c.toNat - '0'.toNat ≤ 9 := by omega
    rw [Nat.ofDigitChars_cons, Nat.ofDigitChars_eq_ofDigitChars_zero, List.length_cons, Nat.pow_succ,
      Nat.mul_zero, Nat.zero_add]
    have scaled : 10 ^ cs.length * (c.toNat - '0'.toNat) ≤ 10 ^ cs.length * 9 := Nat.mul_le_mul_left _ value
    omega

theorem toDigits_ofDigitChars (h : ∀ c ∈ cs, c.isDigit = true) (some_ : cs ≠ []) :
    bytes (Nat.toDigits 10 (Nat.ofDigitChars 10 cs 0)) ≤ bytes cs := by
  rw [bytes_digits h, bytes_digits fun c mem => Nat.isDigit_of_mem_toDigits (by decide) le_rfl mem]
  exact (Nat.length_toDigits_le_iff (by decide) (List.length_pos_iff.mpr some_)).mpr (ofDigitChars_lt h)

theorem lexInt_bytes (h : lexInt cs = some (int, rest)) :
    bytes int + bytes rest = bytes cs ∧ int ≠ [] ∧ ∀ c ∈ int, c.isDigit = true := by
  cases cs with
  | nil => cases h
  | cons c cs =>
    rw [lexInt] at h
    split at h
    · next zero =>
      cases h
      refine ⟨?_, List.cons_ne_nil _ _, by simp⟩
      rw [zero, bytes_cons, bytes_cons, bytes_nil, Nat.add_zero]
    · split at h
      · next digit =>
        cases h
        have whole := bytes_takeWhile Char.isDigit cs
        refine ⟨?_, List.cons_ne_nil _ _,
          List.forall_mem_cons.mpr ⟨digit, fun d mem => List.all_eq_true.mp List.all_takeWhile d mem⟩⟩
        rw [bytes_cons, bytes_cons]
        omega
      · cases h

theorem lexDigits_bytes {digits : List Char} (h : lexDigits cs = some (digits, rest)) :
    bytes digits + bytes rest = bytes cs := by
  rw [lexDigits] at h
  split at h
  · cases h
  · cases h
    exact bytes_takeWhile Char.isDigit cs

theorem lexFraction_bytes {fraction : List Char} (h : lexFraction cs = some (fraction, rest)) :
    bytes fraction + bytes rest = bytes cs := by
  unfold lexFraction at h
  split at h
  · obtain ⟨⟨digits, left⟩, read, e⟩ := Option.map_eq_some_iff.mp h
    cases e
    have size := lexDigits_bytes read
    rw [bytes_cons, bytes_cons]
    omega
  · cases h
    exact Nat.zero_add _

theorem lexSign_bytes (cs : List Char) : bytes (lexSign cs).1 + bytes (lexSign cs).2 = bytes cs := by
  unfold lexSign
  split <;> simp

theorem lexExponent_bytes {exponent : List Char} (h : lexExponent cs = some (exponent, rest)) :
    bytes exponent + bytes rest = bytes cs := by
  cases cs with
  | nil =>
    cases h
    rfl
  | cons c cs =>
    rw [lexExponent] at h
    split at h
    · obtain ⟨⟨digits, left⟩, read, e⟩ := Option.map_eq_some_iff.mp h
      cases e
      have size := lexDigits_bytes read
      have sign := lexSign_bytes cs
      rw [bytes_cons, List.cons_append, bytes_cons, bytes_append]
      omega
    · cases h
      exact Nat.zero_add _

/-- A number is written in no more bytes than it was read from. -/
theorem number_bytes (negative : Bool) (digits : ∀ c ∈ int, c.isDigit = true) (some_ : int ≠ [])
    (fraction exponent : List Char) : bytes (literal (number negative int fraction exponent)) ≤
      (if negative then 1 else 0) + bytes int + bytes fraction + bytes exponent := by
  have most := toDigits_ofDigitChars digits some_
  have minus : '-'.utf8Size = 1 ∧ '0'.utf8Size = 1 := by decide
  rw [number]
  split
  · split
    · split
      · next zero =>
        have text : bytes (literal .negZero) = 2 := by decide
        rw [zero, text, bytes_cons, minus.2, bytes_nil]
        omega
      · rw [literal, toList_int]
        split
        · next k e =>
          have zero : k = 0 := by
            have nonneg : (0 : Int) ≤ (k : Int) := Int.natCast_nonneg k
            have value : (Int.ofNat k) = (k : Int) := rfl
            omega
          have one : 1 ≤ bytes int := by
            rw [bytes_digits digits]
            exact List.length_pos_iff.mpr some_
          subst zero
          have text : bytes (Nat.toDigits 10 0) = 1 := by decide
          rw [text]
          omega
        · next k e =>
          have value : Nat.ofDigitChars 10 int 0 = k + 1 := by
            have negated : (Int.negSucc k) = -((k + 1 : Nat) : Int) := rfl
            omega
          rw [value] at most
          rw [bytes_cons, minus.1]
          omega
    · rw [literal, toList_int]
      have value : ((Nat.ofDigitChars 10 int 0 : Nat) : Int) = Int.ofNat (Nat.ofDigitChars 10 int 0) := rfl
      rw [value]
      dsimp only
      omega
  · rw [literal, String.toList_ofList]
    simp only [bytes_append]
    split
    · simp [minus]
    · simp

theorem lexNumber_bytes {n : Number} (h : lexNumber cs = some (n, rest)) :
    bytes (literal n) + bytes rest ≤ bytes cs := by
  have unsigned : ∀ negative cs,
      ((lexInt cs).bind fun x => (lexFraction x.2).bind fun y => (lexExponent y.2).bind fun z =>
      some (number negative x.1 y.1 z.1, z.2)) = some (n, rest) →
      bytes (literal n) + bytes rest ≤ (if negative then 1 else 0) + bytes cs := by
    intro negative cs h
    simp only [Option.bind_eq_some_iff, Option.some.injEq, Prod.mk.injEq] at h
    obtain ⟨⟨int, left⟩, readInt, ⟨fraction, left'⟩, readFraction, ⟨exponent, left''⟩, readExponent, rfl, rfl⟩ := h
    obtain ⟨size, some_, digits⟩ := lexInt_bytes readInt
    have size' := lexFraction_bytes readFraction
    have size'' := lexExponent_bytes readExponent
    have most := number_bytes negative digits some_ fraction exponent
    dsimp only at size' size'' ⊢
    omega
  have minus : '-'.utf8Size = 1 := by decide
  unfold lexNumber at h
  dsimp only at h
  split at h
  · have size := unsigned true _ h
    rw [bytes_cons, minus]
    exact size
  · have size := unsigned false _ h
    rwa [if_neg Bool.false_ne_true, Nat.zero_add] at size

end Agentnet.Canonical
