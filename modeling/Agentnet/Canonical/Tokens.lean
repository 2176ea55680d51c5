import Mathlib.Algebra.Order.Ring.Nat
import Agentnet.Canonical.Parse

/-! Tokens read back from what was written, and how much shorter they can be written. -/

namespace Agentnet.Canonical

/-! ## Space -/

variable {c : Char} {cs text rest : List Char}

theorem skipSpace_cons (h : isSpace c = false) (rest : List Char) : skipSpace (c :: rest) = c :: rest := by
  rw [skipSpace, List.dropWhile_cons_of_neg (by rw [h]; exact Bool.false_ne_true)]

theorem skipSpace_append {space : List Char} (h : ∀ c ∈ space, isSpace c = true) (rest : List Char) :
    skipSpace (space ++ rest) = skipSpace rest := List.dropWhile_append_of_pos h

/-! ## Sizes -/

/-- The length in UTF-8. -/
def bytes (cs : List Char) : Nat := (cs.map Char.utf8Size).sum

@[simp] theorem bytes_nil : bytes [] = 0 := rfl

@[simp] theorem bytes_cons (c : Char) (cs : List Char) : bytes (c :: cs) = c.utf8Size + bytes cs := List.sum_cons

@[simp] theorem bytes_append (cs ds : List Char) : bytes (cs ++ ds) = bytes cs + bytes ds := by
  rw [bytes, List.map_append, List.sum_append]
  rfl

theorem bytes_toList (s : String) : bytes s.toList = s.utf8ByteSize := by
  have sum : ∀ cs, bytes cs = (String.ofList cs).utf8ByteSize := by
    intro cs
    induction cs with
    | nil => rfl
    | cons c cs ih =>
      have joined : String.ofList (c :: cs) = String.singleton c ++ String.ofList cs := by
        rw [String.singleton_eq_ofList, ← String.ofList_append]
        rfl
      rw [bytes_cons, ih, joined, String.utf8ByteSize_append, String.utf8ByteSize_singleton]
  rw [sum, String.ofList_toList]

theorem bytes_takeWhile (p : Char → Bool) (cs : List Char) :
    bytes (cs.takeWhile p) + bytes (cs.dropWhile p) = bytes cs := by
  rw [← bytes_append, List.takeWhile_append_dropWhile]

theorem bytes_skipSpace (cs : List Char) : bytes (skipSpace cs) ≤ bytes cs := by
  have whole := bytes_takeWhile isSpace cs
  rw [skipSpace]
  omega

theorem bytes_digits (h : ∀ c ∈ cs, c.isDigit = true) : bytes cs = cs.length := by
  induction cs with
  | nil => rfl
  | cons c cs ih =>
    have small := Char.isDigit_iff_toNat.mp (h c List.mem_cons_self)
    have one : c.utf8Size = 1 := Char.utf8Size_eq_one_iff.mpr (UInt32.le_iff_toNat_le.mpr (small.2.trans (by decide)))
    rw [bytes_cons, one, List.length_cons, ih fun d mem => h d (List.mem_cons_of_mem c mem)]
    omega

/-! ## Characters of strings -/

/-- The ways in which writers here spell a character of a string. -/
inductive Written (c : Char) : List Char → Prop where
  | plain (quote : c ≠ '"') (escape : c ≠ '\\') (control : 0x20 ≤ c.toNat) : Written c [c]
  | short (d : Char) (other : d ≠ 'u') (read : ∀ rest, lexEscape (d :: rest) = some (c, rest)) : Written c ['\\', d]
  | unit (w x y z : Char) (read : ∀ rest, hex4 (w :: x :: y :: z :: rest) = some (c.toNat, rest)) :
      Written c ['\\', 'u', w, x, y, z]

theorem hexValue_hexDigit : ∀ n < 16, hexValue (hexDigit n) = some n := by decide

theorem hex4_hexDigits {v : Nat} (low : v < 0x100) (rest : List Char) :
    hex4 ('0' :: '0' :: hexDigit (v / 16) :: hexDigit (v % 16) :: rest) = some (v, rest) := by
  have zero : hexValue '0' = some 0 := by decide
  rw [hex4, zero, hexValue_hexDigit (v / 16) (by omega), hexValue_hexDigit (v % 16) (by omega)]
  simp only [Option.bind_eq_bind, Option.bind_some, Option.pure_def]
  congr 2
  omega

theorem written_escapeChar (c : Char) : Written c (escapeChar c) := by
  rw [escapeChar]
  split
  · next e => exact e ▸ .short '"' (by decide) fun _ => rfl
  split
  · next e => exact e ▸ .short '\\' (by decide) fun _ => rfl
  split
  · next e => exact e ▸ .short 'b' (by decide) fun _ => rfl
  split
  · next e => exact e ▸ .short 't' (by decide) fun _ => rfl
  split
  · next e => exact e ▸ .short 'n' (by decide) fun _ => rfl
  split
  · next e => exact e ▸ .short 'f' (by decide) fun _ => rfl
  split
  · next e => exact e ▸ .short 'r' (by decide) fun _ => rfl
  split
  · next low => exact .unit _ _ _ _ fun rest => hex4_hexDigits (low.trans (by decide)) rest
  · next quote escape _ _ _ _ _ high => exact .plain quote escape (not_lt.mp high)

theorem scalar_not_surrogate (c : Char) : isHigh c.toNat = false ∧ isLow c.toNat = false := by
  have valid := c.valid
  have value : c.toNat = c.val.toNat := rfl
  rw [UInt32.isValidChar, Nat.isValidChar, ← value] at valid
  simp only [isHigh, isLow, decide_eq_false_iff_not]
  omega

def Passes (inString : Bool) (text : List Char) (after : Bool) : Prop :=
  ∀ n pos rest, (text ++ rest).length ≤ n → ∃ n' pos', rest.length ≤ n' ∧
    checkSurrogates n pos inString (text ++ rest) = checkSurrogates n' pos' after rest

theorem Passes.nil (inString : Bool) : Passes inString [] inString := fun n pos _ enough => ⟨n, pos, enough, rfl⟩

/-- The scan goes over two texts in turn. -/
theorem Passes.append {a b c : Bool} {text' : List Char} (h : Passes a text b) (h' : Passes b text' c) :
    Passes a (text ++ text') c := by
  intro n pos rest enough
  rw [List.append_assoc] at enough ⊢
  obtain ⟨n₁, pos₁, enough₁, e₁⟩ := h n pos (text' ++ rest) enough
  obtain ⟨n₂, pos₂, enough₂, e₂⟩ := h' n₁ pos₁ rest enough₁
  exact ⟨n₂, pos₂, enough₂, e₁.trans e₂⟩

/-- Outside a string only a quote matters. -/
theorem Passes.mark (h : c ≠ '"') {after : Bool} (h' : Passes false text after) : Passes false (c :: text) after := by
  have one : Passes false [c] false := by
    intro n pos rest enough
    cases n with
    | zero => exact absurd enough (by simp)
    | succ n =>
      refine ⟨n, pos + c.utf8Size, by simpa using enough, ?_⟩
      rw [List.singleton_append, checkSurrogates]
      simp [h]
  exact one.append h'

theorem Passes.outside (h : ∀ c ∈ text, c ≠ '"') : Passes false text false := by
  induction text with
  | nil => exact .nil false
  | cons c text ih => exact .mark (h c List.mem_cons_self) (ih fun d mem => h d (List.mem_cons_of_mem c mem))

structure Escaping where
  write : Char → List Char
  written : ∀ c, Written c (write c)

def Escaping.canonical : Escaping := ⟨escapeChar, written_escapeChar⟩

/-! ## Strings -/

def quote (esc : Escaping) (s : String) : List Char := '"' :: (s.toList.flatMap esc.write ++ ['"'])

/-! ## Numbers -/

def Stops (rest : List Char) : Prop := ∀ c ∈ rest.head?, c.isDigit = false ∧ c ≠ '.' ∧ c ≠ 'e' ∧ c ≠ 'E'

theorem stops_nil : Stops [] := fun _ none_ => (by cases none_)

theorem stops_cons (h : c.isDigit = false ∧ c ≠ '.' ∧ c ≠ 'e' ∧ c ≠ 'E') : Stops (c :: rest) := by
  intro d first
  rw [← Option.some.inj first]
  exact h

theorem Stops.exponent (h : Stops rest) : lexExponent rest = some ([], rest) := by
  cases rest with
  | nil => rfl
  | cons c rest =>
    obtain ⟨-, -, small, big⟩ := h c rfl
    rw [lexExponent, if_neg (not_or.mpr ⟨small, big⟩)]

theorem toDigits_head {n : Nat} (h : n ≠ 0) : ∃ c cs, Nat.toDigits 10 n = c :: cs ∧ c ≠ '0' := by
  induction n using Nat.strong_induction_on with
  | _ n ih =>
    by_cases small : n < 10
    · rw [Nat.toDigits_of_lt_base small]
      refine ⟨_, [], rfl, fun zero => h ?_⟩
      have value := Nat.toNat_digitChar_of_lt_ten small
      rw [zero] at value
      have code : '0'.toNat = 48 := rfl
      omega
    · obtain ⟨c, cs, digits, other⟩ := ih (n / 10) (by omega) (by omega)
      rw [Nat.toDigits_of_base_le (by decide) (not_lt.mp small), digits]
      exact ⟨c, cs ++ [(n % 10).digitChar], rfl, other⟩

theorem toList_int (i : Int) : (toString i).toList = match i with
    | .ofNat n => Nat.toDigits 10 n
    | .negSucc n => '-' :: Nat.toDigits 10 (n + 1) := by
  have digits : ∀ n : Nat, (toString n).toList = Nat.toDigits 10 n := by
    intro n
    rw [Nat.toString_eq_ofList_toDigits, String.toList_ofList]
  cases i with
  | ofNat n => exact digits n
  | negSucc n =>
    have text : toString (Int.negSucc n) = "-" ++ toString (n + 1) := rfl
    rw [text, String.toList_append, digits]
    rfl

end Agentnet.Canonical
