import Agentnet.Canonical.Tokens
import Agentnet.Lib.Except

/-! The grammar of RFC 8259, with the string tokens of a document as they are spelled, and what the parser makes of
it. -/

namespace Agentnet.Canonical

open Lib

/-! ## The grammar -/

/-- A character of a string token, or an escape in it with what it stands for. -/
inductive Piece where
  | plain (c : Char)
  | short (d c : Char)
  | unit (v : Nat) (digits : List Char)

namespace Piece

/-- How a piece is spelled. -/
def text : Piece → List Char
  | .plain c => [c]
  | .short d _ => ['\\', d]
  | .unit _ digits => '\\' :: 'u' :: digits

def shortEscapes : List (Char × Char) :=
  [('"', '"'), ('\\', '\\'), ('/', '/'), ('b', '\x08'), ('f', '\x0c'), ('n', '\n'), ('r', '\r'), ('t', '\t')]

/-- The spelling is allowed in a string. -/
def Ok : Piece → Prop
  | .plain c => c ≠ '"' ∧ c ≠ '\\' ∧ 0x20 ≤ c.toNat
  | .short d c => (d, c) ∈ shortEscapes
  | .unit v digits => hex4 digits = some (v, [])

def high : Piece → Bool
  | .unit v _ => isHigh v
  | _ => false

/-- The second half of a surrogate pair. -/
def low : Piece → Bool
  | .unit v _ => isLow v
  | _ => false

end Piece

def spell (s : List Piece) : List Char := s.flatMap Piece.text

def quoted (s : List Piece) : List Char := '"' :: (spell s ++ ['"'])

/-- An escape for a high surrogate stands right before each one for a low surrogate, and nowhere else. -/
def Paired (s : List Piece) : Prop :=
  s.head?.any Piece.low = false ∧ ∀ i, s[i]?.any Piece.high = s[i + 1]?.any Piece.low

def unitChar (v : Nat) : Char := if isHigh v || isLow v then replacement else Char.ofNat v

def Piece.char : Piece → Char
  | .plain c | .short _ c => c
  | .unit v _ => unitChar v

/-- The characters a token stands for, as the decoder has it. -/
def unescape : List Piece → List Char
  | [] => []
  | .unit v _ :: .unit lo digits :: s =>
    if isHigh v && isLow lo then pair v lo :: unescape s else unitChar v :: unescape (.unit lo digits :: s)
  | p :: s => p.char :: unescape s

def Digits (ds : List Char) : Prop := ds ≠ [] ∧ ∀ c ∈ ds, c.isDigit = true

structure IsNumber (int fraction exponent : List Char) : Prop where
  int : Digits int ∧ (int.head? = some '0' → int = ['0'])
  fraction : fraction = [] ∨ ∃ ds, Digits ds ∧ fraction = '.' :: ds
  exponent : exponent = [] ∨ ∃ c sign ds, (c = 'e' ∨ c = 'E') ∧
    (sign = [] ∨ sign = ['+'] ∨ sign = ['-']) ∧ Digits ds ∧ exponent = c :: (sign ++ ds)

def Space (cs : List Char) : Prop := ∀ c ∈ cs, isSpace c = true

/-- What a text says: its value, its string tokens in order, names included, and whether the names of each object
are distinct. -/
structure Doc where
  value : Json
  tokens : List (List Piece) := []
  distinct : Bool := true

/-- A value with the space around it, and the inside of an array and of an object. -/
inductive Kind where
  | value
  | items
  | members

inductive Derives : Kind → List Char → Doc → Prop where
  | null : Derives .value ['n', 'u', 'l', 'l'] ⟨.null, [], true⟩
  | true_ : Derives .value ['t', 'r', 'u', 'e'] ⟨.bool true, [], true⟩
  | false_ : Derives .value ['f', 'a', 'l', 's', 'e'] ⟨.bool false, [], true⟩
  | num {int fraction exponent : List Char} (negative : Bool) (ok : IsNumber int fraction exponent) :
      Derives .value ((if negative then ['-'] else []) ++ (int ++ (fraction ++ exponent)))
        ⟨.num (number negative int fraction exponent), [], true⟩
  | str {s : List Piece} (ok : ∀ p ∈ s, p.Ok) :
      Derives .value (quoted s) ⟨.str (String.ofList (unescape s)), [s], true⟩
  | noItems {space : List Char} (blank : Space space) : Derives .value ('[' :: (space ++ [']'])) ⟨.arr [], [], true⟩
  | arr {text : List Char} {d : Doc} (inside : Derives .items text d) : Derives .value ('[' :: (text ++ [']'])) d
  | noMembers {space : List Char} (blank : Space space) :
      Derives .value ('\x7b' :: (space ++ ['\x7d'])) ⟨.obj [], [], true⟩
  | obj {text : List Char} {d : Doc} (inside : Derives .members text d) :
      Derives .value ('\x7b' :: (text ++ ['\x7d'])) d
  | space {before text after : List Char} {d : Doc} (blank : Space before) (blank' : Space after)
      (inside : Derives .value text d) :
      Derives .value (before ++ (text ++ after)) d
  | item {text : List Char} {d : Doc} (first : Derives .value text d) :
      Derives .items text ⟨.arr [d.value], d.tokens, d.distinct⟩
  | items {text text' : List Char} {d : Doc} {items : List Json} {ts : List (List Piece)} {b : Bool}
      (first : Derives .value text d) (others : Derives .items text' ⟨.arr items, ts, b⟩) :
      Derives .items (text ++ ',' :: text') ⟨.arr (d.value :: items), d.tokens ++ ts, d.distinct && b⟩
  | member {before after text : List Char} {key : List Piece} {d : Doc} (blank : Space before) (blank' : Space after)
      (ok : ∀ p ∈ key, p.Ok) (first : Derives .value text d) :
      Derives .members (before ++ (quoted key ++ (after ++ ':' :: text)))
        ⟨.obj [(String.ofList (unescape key), d.value)], key :: d.tokens, d.distinct⟩
  | members {before after text text' : List Char} {key : List Piece} {d : Doc} {members : List (String × Json)}
      {ts : List (List Piece)} {b : Bool} (blank : Space before) (blank' : Space after) (ok : ∀ p ∈ key, p.Ok)
      (first : Derives .value text d) (others : Derives .members text' ⟨.obj members, ts, b⟩) :
      Derives .members (before ++ (quoted key ++ (after ++ ':' :: (text ++ ',' :: text'))))
        ⟨.obj ((String.ofList (unescape key), d.value) :: members), key :: (d.tokens ++ ts),
          d.distinct && b && String.ofList (unescape key) ∉ members.map Prod.fst⟩

/-! ## Strings -/

variable {s : List Piece} {p : Piece} {v : Nat} {rest text digits : List Char}

theorem hex4_append (h : hex4 digits = some (v, [])) (rest : List Char) :
    hex4 (digits ++ rest) = some (v, rest) ∧ digits.length = 4 := by
  unfold hex4 at h
  split at h
  · next a b c d left =>
    simp only [Option.bind_eq_bind, Option.bind_eq_some_iff, Option.pure_def, Option.some.injEq, Prod.mk.injEq] at h
    obtain ⟨_, one, _, two, _, three, _, four, rfl, rfl⟩ := h
    simp [hex4, one, two, three, four]
  · cases h

theorem lexEscape_short {d c : Char} (ok : (Piece.short d c).Ok) (rest : List Char) :
    d ≠ 'u' ∧ d.utf8Size = 1 ∧ lexEscape (d :: rest) = some (c, rest) ∧ c ≠ replacement := by
  simp only [Piece.Ok, Piece.shortEscapes, List.mem_cons, List.not_mem_nil, Prod.mk.injEq, or_false] at ok
  rcases ok with ⟨rfl, rfl⟩ | ⟨rfl, rfl⟩ | ⟨rfl, rfl⟩ | ⟨rfl, rfl⟩ | ⟨rfl, rfl⟩ | ⟨rfl, rfl⟩ | ⟨rfl,
    rfl⟩ | ⟨rfl, rfl⟩ <;>
    exact ⟨by decide, by decide, rfl, by decide⟩

/-- No escape for a low surrogate comes next. -/
def NoLow (rest : List Char) : Prop :=
  ∀ digits lo left, rest = '\\' :: 'u' :: digits → hex4 digits = some (lo, left) → isLow lo = false

theorem noLow_spell (ok : ∀ p ∈ s, p.Ok) (first : s.head?.any Piece.low = false) (rest : List Char) :
    NoLow (spell s ++ '"' :: rest) := by
  intro digits lo left same read
  cases s with
  | nil => cases same
  | cons p s =>
    have okp := ok p List.mem_cons_self
    cases p with
    | plain c => exact absurd (List.cons.inj same).1 okp.2.1
    | short d c => exact absurd (List.cons.inj (List.cons.inj same).2).1 (lexEscape_short okp []).1
    | unit v ds =>
      have after := (hex4_append okp (spell s ++ '"' :: rest)).1
      simp only [spell, List.flatMap_cons, Piece.text, List.cons_append, List.append_assoc, List.cons.injEq,
        true_and] at same after
      rw [← same, after] at read
      cases read
      simpa [Piece.low] using first

theorem lexUnit_alone (none_ : isHigh v = true → NoLow rest) : lexUnit v rest = (unitChar v, rest) := by
  unfold lexUnit unitChar
  cases high : isHigh v with
  | false => cases isLow v <;> simp
  | true =>
    have noLow := none_ high
    simp only [if_true, Bool.true_or]
    split
    · next digits =>
      split
      · next lo left read => simp [noLow digits lo left rfl read]
      · rfl
    · rfl

/-- A token piece by piece, a pair at once. -/
theorem pieces_ind {motive : List Piece → Prop} (nil : motive [])
    (pair : ∀ v ds lo ds' s, isHigh v = true → isLow lo = true → motive s → motive (.unit v ds :: .unit lo ds' :: s))
    (single : ∀ p s, (p.high = true → s.head?.any Piece.low = false) → motive s → motive (p :: s))
    (s : List Piece) : motive s := by
  induction s using unescape.induct with
  | case1 => exact nil
  | case2 v ds lo ds' s both ih =>
    rw [Bool.and_eq_true] at both
    exact pair v ds lo ds' s both.1 both.2 ih
  | case3 v ds lo ds' s other ih => exact single _ _ (fun high => by simp_all [Piece.high, Piece.low]) ih
  | case4 p s other ih =>
    refine single p s (fun high => ?_) ih
    rcases s with _ | ⟨q | ⟨d, c⟩ | ⟨lo, ds'⟩, s⟩
    · rfl
    · rfl
    · rfl
    · cases p with
      | plain c | short d c => cases high
      | unit v ds => exact (other v ds lo ds' s rfl rfl).elim

theorem unescape_single (alone : p.high = true → s.head?.any Piece.low = false) :
    unescape (p :: s) = p.char :: unescape s := by
  rw [unescape.eq_def]
  split
  · next same => cases same
  · next v ds lo ds' s' same =>
    cases same
    split
    · next both => simp_all [Piece.high, Piece.low]
    · rfl
  · next same =>
    cases same
    rfl

theorem lexChar_piece (ok : p.Ok) (alone : p.high = true → NoLow rest) :
    lexChar (p.text ++ rest) = some (p.char, rest) := by
  cases p with
  | plain c => simp [Piece.text, lexChar, ok.2.1, not_lt.mpr ok.2.2, Piece.char]
  | short d c => exact (lexEscape_short ok rest).2.2.1
  | unit v ds => simp [Piece.text, Piece.char, lexChar, lexEscape, (hex4_append ok rest).1, lexUnit_alone alone]

theorem lexChar_pair {lo : Nat} {digits' : List Char} (ok : (Piece.unit v digits).Ok)
    (ok' : (Piece.unit lo digits').Ok) (high : isHigh v = true) (low : isLow lo = true) (rest : List Char) :
    lexChar ((Piece.unit v digits).text ++ ((Piece.unit lo digits').text ++ rest)) = some (pair v lo, rest) := by
  simp [Piece.text, lexChar, lexEscape, (hex4_append ok _).1, lexUnit, high, (hex4_append ok' _).1, low]

theorem text_head (ok : p.Ok) : ∃ c cs, p.text = c :: cs ∧ c ≠ '"' := by
  cases p with
  | plain c => exact ⟨c, [], rfl, ok.1⟩
  | short d c => exact ⟨'\\', _, rfl, by decide⟩
  | unit v ds => exact ⟨'\\', _, rfl, by decide⟩

theorem lexString_text {x : Char} {more left left' xs : List Char} {n : Nat} (ok : p.Ok)
    (first : lexChar (p.text ++ more) = some (x, left)) (others : lexString n left = some (xs, left')) :
    lexString (n + 1) (p.text ++ more) = some (x :: xs, left') := by
  obtain ⟨c, cs, text, other⟩ := text_head ok
  rw [text, List.cons_append] at first ⊢
  rw [lexString, if_neg other, first]
  simp [others]

theorem lexString_spell (ok : ∀ p ∈ s, p.Ok) {n : Nat} (enough : s.length < n) (rest : List Char) :
    lexString n (spell s ++ '"' :: rest) = some (unescape s, rest) := by
  induction s using pieces_ind generalizing n with
  | nil =>
    obtain ⟨n, rfl⟩ := Nat.exists_eq_succ_of_ne_zero (Nat.ne_of_gt enough)
    rfl
  | pair v ds lo ds' s high low ih =>
    obtain ⟨n, rfl⟩ := Nat.exists_eq_succ_of_ne_zero (Nat.ne_of_gt (Nat.zero_lt_of_lt enough))
    obtain ⟨ok, ok', others⟩ : _ ∧ _ ∧ ∀ p ∈ s, p.Ok := by simpa only [List.forall_mem_cons] using ok
    have read := lexChar_pair ok ok' high low (spell s ++ '"' :: rest)
    rw [unescape, if_pos (by rw [high, low]; rfl)]
    simp only [spell, List.flatMap_cons, List.append_assoc] at read ⊢
    exact lexString_text ok read (ih others (by simp only [List.length_cons] at enough; omega))
  | single p s alone ih =>
    obtain ⟨n, rfl⟩ := Nat.exists_eq_succ_of_ne_zero (Nat.ne_of_gt (Nat.zero_lt_of_lt enough))
    obtain ⟨first, others⟩ := List.forall_mem_cons.mp ok
    have read := lexChar_piece first fun high => noLow_spell others (alone high) rest
    rw [unescape_single alone]
    simp only [spell, List.flatMap_cons, List.append_assoc] at read ⊢
    exact lexString_text first read (ih others (by simpa using enough))

theorem lexString_quoted (ok : ∀ p ∈ s, p.Ok) (rest : List Char) :
    lexString ((spell s ++ '"' :: rest).length + 1) (spell s ++ '"' :: rest) = some (unescape s, rest) := by
  have longer : s.length ≤ (spell s).length := by
    induction s with
    | nil => simp
    | cons p s ih =>
      obtain ⟨first, others⟩ := List.forall_mem_cons.mp ok
      obtain ⟨c, cs, text, -⟩ := text_head first
      have := ih others
      simp only [spell, List.flatMap_cons, text, List.cons_append, List.length_append, List.length_cons] at this ⊢
      omega
  exact lexString_spell ok (by rw [List.length_append]; omega) rest

/-! ## Numbers -/

variable {ds exponent fraction int : List Char}

theorem digits_append (ok : Digits ds) (stop : ∀ c ∈ rest.head?, c.isDigit = false) :
    (ds ++ rest).takeWhile Char.isDigit = ds ∧ (ds ++ rest).dropWhile Char.isDigit = rest := by
  have none_ : rest.takeWhile Char.isDigit = [] ∧ rest.dropWhile Char.isDigit = rest := by
    cases rest with
    | nil => exact ⟨rfl, rfl⟩
    | cons c rest => simp [stop c rfl]
  rw [List.takeWhile_append_of_pos ok.2, List.dropWhile_append_of_pos ok.2, none_.1, none_.2, List.append_nil]
  exact ⟨rfl, rfl⟩

theorem lexDigits_append (ok : Digits ds) (stop : ∀ c ∈ rest.head?, c.isDigit = false) :
    lexDigits (ds ++ rest) = some (ds, rest) := by
  rw [lexDigits, (digits_append ok stop).1, (digits_append ok stop).2, if_neg ok.1]

theorem lexNumber_append (negative : Bool) (ok : IsNumber int fraction exponent) (stops : Stops rest) :
    lexNumber ((if negative then ['-'] else []) ++ (int ++ (fraction ++ exponent)) ++ rest) =
      some (number negative int fraction exponent, rest) := by
  obtain ⟨⟨digits, zero⟩, isFraction, isExponent⟩ := ok
  have head : ∀ {ds}, Digits ds → ∃ c cs, ds = c :: cs ∧ c.isDigit = true := by
    rintro (_ | ⟨c, cs⟩) ok
    · exact absurd rfl ok.1
    · exact ⟨c, cs, rfl, ok.2 c List.mem_cons_self⟩
  have exponents : lexExponent (exponent ++ rest) = some (exponent, rest) ∧
      ∀ c ∈ (exponent ++ rest).head?, c.isDigit = false ∧ c ≠ '.' := by
    rcases isExponent with rfl | ⟨e, sign, ds, begins, isSign, ok, rfl⟩
    · exact ⟨stops.exponent, fun c first => ⟨(stops c first).1, (stops c first).2.1⟩⟩
    · have read := lexDigits_append ok fun c first => (stops c first).1
      have signs : lexSign (sign ++ (ds ++ rest)) = (sign, ds ++ rest) := by
        rcases isSign with rfl | rfl | rfl
        · obtain ⟨c, cs, rfl, digit⟩ := head ok
          rw [List.nil_append, lexSign.eq_def]
          split
          · next same => cases (List.cons.inj same).1 ▸ digit
          · next same => cases (List.cons.inj same).1 ▸ digit
          · rfl
        · rfl
        · rfl
      exact ⟨by simp [lexExponent, begins, signs, read], by rcases begins with rfl | rfl <;> simp⟩
  have fractions : lexFraction (fraction ++ (exponent ++ rest)) = some (fraction, exponent ++ rest) ∧
      ∀ c ∈ (fraction ++ (exponent ++ rest)).head?, c.isDigit = false := by
    rcases isFraction with rfl | ⟨ds, ok, rfl⟩
    · refine ⟨?_, fun c first => (exponents.2 c first).1⟩
      rw [List.nil_append, lexFraction.eq_def]
      split
      · next same => exact absurd rfl (exponents.2 '.' (by rw [same]; rfl)).2
      · rfl
    · exact ⟨by simp [lexFraction, lexDigits_append ok fun c first => (exponents.2 c first).1], by simp⟩
  have ints : lexInt (int ++ (fraction ++ (exponent ++ rest))) = some (int, fraction ++ (exponent ++ rest)) := by
    obtain ⟨taken, left⟩ := digits_append digits fractions.2
    obtain ⟨c, cs, rfl, digit⟩ := head digits
    by_cases begins : c = '0'
    · subst begins
      cases zero rfl
      rfl
    · simp only [List.cons_append, List.takeWhile_cons, List.dropWhile_cons, digit, if_true, List.cons.injEq,
        true_and] at taken left
      rw [List.cons_append, lexInt, if_neg begins, if_pos digit, taken, left]
  obtain ⟨c, cs, begins, digit⟩ := head digits
  rw [lexNumber.eq_def]
  cases negative with
  | true => simp [ints, fractions.1, exponents.1]
  | false =>
    simp only [Bool.false_eq_true, if_false, List.nil_append, List.append_assoc]
    rw [begins] at ints ⊢
    split
    · next same => cases (List.cons.inj same).1 ▸ digit
    · simp only [ints, fractions.1, exponents.1, Option.bind_eq_bind, Option.bind_some, Option.pure_def]

/-! ## What the parser does, by the next character -/

section Dispatch

attribute [local simp] parseValue parseItems parseMembers

variable (n : Nat) (rest : List Char)

theorem parseValue_null : parseValue (n + 1) ('n' :: 'u' :: 'l' :: 'l' :: rest) = .ok (.null, rest) := by
  rw [parseValue, skipSpace_cons rfl]
  rfl

theorem parseValue_true : parseValue (n + 1) ('t' :: 'r' :: 'u' :: 'e' :: rest) = .ok (.bool true, rest) := by
  rw [parseValue, skipSpace_cons rfl]
  rfl

theorem parseValue_false :
    parseValue (n + 1) ('f' :: 'a' :: 'l' :: 's' :: 'e' :: rest) = .ok (.bool false, rest) := by
  rw [parseValue, skipSpace_cons rfl]
  rfl

theorem parseValue_string : parseValue (n + 1) ('"' :: rest) =
    (do let (s, left) ← token (lexString (rest.length + 1) rest)
        return (.str (String.ofList s), left)) := by
  rw [parseValue, skipSpace_cons rfl]
  rfl

theorem parseValue_array : parseValue (n + 1) ('[' :: rest) = match skipSpace rest with
    | ']' :: left => .ok (.arr [], left)
    | _ => do
      let (items, left) ← parseItems n rest
      return (.arr items, left) := by
  rw [parseValue, skipSpace_cons rfl]
  rfl

theorem parseValue_object : parseValue (n + 1) ('\x7b' :: rest) = match skipSpace rest with
    | '\x7d' :: left => .ok (.obj [], left)
    | _ => do
      let (members, left) ← parseMembers n [] rest
      return (.obj members, left) := by
  rw [parseValue, skipSpace_cons rfl]
  rfl

theorem parseValue_number {c : Char} (h : c = '-' ∨ c.isDigit = true) : parseValue (n + 1) (c :: rest) =
    (do let (number, left) ← token (lexNumber (c :: rest))
        return (.num number, left)) := by
  have known : ∀ d : Char, d ≠ '-' → d.isDigit = false → c ≠ d := by
    rintro d sign digit rfl
    obtain e | e := h
    · exact sign e
    · cases digit.symm.trans e
  have space : isSpace c = false := by
    simp only [isSpace, decide_eq_false_iff_not, not_or]
    exact ⟨known _ (by decide) rfl, known _ (by decide) rfl, known _ (by decide) rfl, known _ (by decide) rfl⟩
  rw [parseValue, skipSpace_cons space]
  split
  case h_7 => rfl
  all_goals
    next e => exact absurd (List.cons.inj e).1 (known _ (by decide) rfl)

theorem parseValue_space {space : List Char} (h : ∀ c ∈ space, isSpace c = true) :
    parseValue n (space ++ rest) = parseValue n rest := by
  cases n with
  | zero => rfl
  | succ n => rw [parseValue, parseValue, skipSpace_append h]

end Dispatch

/-! ## Values -/

section Outcome

variable {α β : Type} {ok : Prop} {P : α → Prop} {Q : β → Prop} {r : Except ParseError α}
  {f : α → Except ParseError β}

/-- A step that fails only at a name that occurs twice, and there only. -/
def Outcome (ok : Prop) (P : α → Prop) (r : Except ParseError α) : Prop :=
  (ok → ∃ a, r = .ok a ∧ P a) ∧ (¬ok → ∃ key, r = .error (.duplicateKey key))

/-- A success under no condition. -/
theorem Outcome.done {a : α} (h : P a) : Outcome True P (.ok a) := ⟨fun _ => ⟨a, rfl, h⟩, fun no => absurd trivial no⟩

theorem Outcome.congr {ok' : Prop} (h : Outcome ok P r) (same : ok ↔ ok') : Outcome ok' P r := by
  rwa [Outcome, ← same]

/-- The conditions of two steps in turn are joined. -/
theorem Outcome.bind (h : Outcome ok P r) (ok' : Prop) (h' : ∀ a, P a → Outcome ok' Q (f a)) :
    Outcome (ok ∧ ok') Q (r >>= f) := by
  by_cases yes : ok
  · obtain ⟨a, rfl, pa⟩ := h.1 yes
    exact (h' a pa).congr (by simp [yes])
  · obtain ⟨key, rfl⟩ := h.2 yes
    exact ⟨fun both => absurd both.1 yes, fun _ => ⟨key, rfl⟩⟩

end Outcome

def names : Json → List String
  | .obj members => members.map Prod.fst
  | _ => []

def Parses : Kind → List Char → Doc → Prop
  | .value, text, d => ∀ n rest, text.length ≤ n → Stops rest →
    Outcome (d.distinct = true) (fun r => r.1 = d.value ∧
      skipSpace r.2 = skipSpace rest) (parseValue n (text ++ rest))
  | .items, text, d => ∀ n rest, text.length < n →
    Outcome (d.distinct = true) (fun r => .arr r.1 = d.value ∧ r.2 = rest) (parseItems n (text ++ ']' :: rest))
  | .members, text, d => ∀ n seen rest, text.length < n →
    Outcome (d.distinct = true ∧ ∀ name ∈ names d.value, name ∉ seen) (fun r => .obj r.1 = d.value ∧ r.2 = rest)
      (parseMembers n seen (text ++ '\x7d' :: rest))

/-- A number starts with its sign or a digit. -/
theorem IsNumber.head (ok : IsNumber int fraction exponent) (negative : Bool) :
    ∃ c cs, (if negative then ['-'] else []) ++ (int ++ (fraction ++ exponent)) = c :: cs ∧
    (c = '-' ∨ c.isDigit = true) := by
  cases negative with
  | true => exact ⟨'-', _, rfl, .inl rfl⟩
  | false =>
    obtain ⟨c, cs, rfl⟩ := List.exists_cons_of_ne_nil ok.int.1.1
    exact ⟨c, _, rfl, .inr (ok.int.1.2 c List.mem_cons_self)⟩

/-- A value starts with neither bracket that closes. -/
theorem Derives.head {k : Kind} {d : Doc} (h : Derives k text d) (rest : List Char) :
    ∃ c cs, skipSpace (text ++ rest) = c :: cs ∧ c ≠ ']' ∧ c ≠ '\x7d' := by
  induction h generalizing rest with
  | null | true_ | false_ | str | noItems | arr | noMembers | obj =>
    exact ⟨_, _, skipSpace_cons rfl _, by decide, by decide⟩
  | num negative ok =>
    obtain ⟨c, cs, text, begins⟩ := ok.head negative
    have other : isSpace c = false ∧ c ≠ ']' ∧ c ≠ '\x7d' := by
      rcases begins with rfl | digit
      · decide
      · simp only [isSpace, decide_eq_false_iff_not, not_or]
        refine ⟨⟨?_, ?_, ?_, ?_⟩, ?_, ?_⟩ <;> rintro rfl <;> cases digit
    rw [text, List.cons_append]
    exact ⟨c, _, skipSpace_cons other.1 _, other.2⟩
  | space blank blank' _ ih =>
    rw [List.append_assoc, List.append_assoc, skipSpace_append blank]
    exact ih _
  | item _ ih => exact ih rest
  | items _ _ ih _ =>
    rw [List.append_assoc]
    exact ih _
  | member blank | members blank =>
    rw [List.append_assoc, skipSpace_append blank]
    exact ⟨_, _, skipSpace_cons rfl _, by decide, by decide⟩

theorem stops_space (blank : Space text) (stops : Stops rest) : Stops (text ++ rest) := by
  cases text with
  | nil => exact stops
  | cons d space =>
    have first := blank d List.mem_cons_self
    simp only [isSpace, decide_eq_true_eq] at first
    obtain rfl | rfl | rfl | rfl := first <;> exact stops_cons (by decide)

theorem parseKey_quoted {before after : List Char} (blank : Space before) (blank' : Space after)
    (ok : ∀ p ∈ s, p.Ok) (rest : List Char) :
    parseKey (before ++ (quoted s ++ (after ++ ':' :: rest))) = .ok (String.ofList (unescape s),
      after ++ ':' :: rest) ∧ parseColon (after ++ ':' :: rest) = .ok rest := by
  constructor
  · simp only [parseKey, skipSpace_append blank, quoted, List.cons_append, List.append_assoc, List.nil_append,
      skipSpace_cons (c := '"') rfl, lexString_quoted ok]
    rfl
  · rw [parseColon, skipSpace_append blank', skipSpace_cons rfl]
    rfl

theorem parses_scalar {v : Json} {ts : List (List Piece)} (some_ : text ≠ [])
    (read : ∀ n rest, Stops rest → parseValue (n + 1) (text ++ rest) = .ok (v, rest)) :
    Parses .value text ⟨v, ts, true⟩ := by
  rintro (_ | n) rest enough stops
  · exact absurd (List.length_eq_zero_iff.mp (Nat.le_zero.mp enough)) some_
  · rw [read n rest stops]
    exact ⟨fun _ => ⟨_, rfl, rfl, rfl⟩, fun no => absurd rfl no⟩

/-- What the grammar derives, the parser reads, by induction on the derivation. -/
theorem Derives.parses {k : Kind} {d : Doc} (h : Derives k text d) : Parses k text d := by
  induction h with
  | null => exact parses_scalar (by simp) fun n rest _ => parseValue_null n rest
  | true_ => exact parses_scalar (by simp) fun n rest _ => parseValue_true n rest
  | false_ => exact parses_scalar (by simp) fun n rest _ => parseValue_false n rest
  | num negative ok =>
    obtain ⟨c, cs, text, begins⟩ := ok.head negative
    refine parses_scalar (by simp [text]) fun n rest stops => ?_
    have read := lexNumber_append negative ok stops
    rw [text, List.cons_append] at read ⊢
    rw [parseValue_number n _ begins, read]
    rfl
  | str ok =>
    refine parses_scalar (by simp [quoted]) fun n rest _ => ?_
    simp only [quoted, List.cons_append, List.append_assoc, List.nil_append, parseValue_string, lexString_quoted ok]
    rfl
  | noItems blank =>
    refine parses_scalar (by simp) fun n rest _ => ?_
    simp [parseValue_array, skipSpace_append blank, skipSpace_cons (c := ']') rfl]
  | noMembers blank =>
    refine parses_scalar (by simp) fun n rest _ => ?_
    simp [parseValue_object, skipSpace_append blank, skipSpace_cons (c := '\x7d') rfl]
  | @arr text d inside ih =>
    rintro (_ | n) rest enough _
    · exact absurd enough (by simp)
    obtain ⟨c, cs, first, other, -⟩ := inside.head (']' :: rest)
    simp only [List.cons_append, List.append_assoc, List.nil_append]
    rw [parseValue_array, first]
    split
    · next same => exact absurd (List.cons.inj same).1 other
    · refine ((ih n rest (by simp at enough; omega)).bind True ?_).congr (and_true _).to_iff
      rintro ⟨items, left⟩ ⟨same, rfl⟩
      exact .done ⟨same, rfl⟩
  | @obj text d inside ih =>
    rintro (_ | n) rest enough _
    · exact absurd enough (by simp)
    obtain ⟨c, cs, first, -, other⟩ := inside.head ('\x7d' :: rest)
    simp only [List.cons_append, List.append_assoc, List.nil_append]
    rw [parseValue_object, first]
    split
    · next same => exact absurd (List.cons.inj same).1 other
    · refine ((ih n [] rest (by simp at enough; omega)).bind True ?_).congr (by simp)
      rintro ⟨members, left⟩ ⟨same, rfl⟩
      exact .done ⟨same, rfl⟩
  | @space before text after d blank blank' inside ih =>
    intro n rest enough stops
    simp only [List.append_assoc, parseValue_space n _ blank]
    have read := ih n (after ++ rest) (by simp at enough; omega) (stops_space blank' stops)
    rwa [skipSpace_append blank'] at read
  | @item text d first ih =>
    rintro (_ | n) rest enough
    · exact absurd enough (by simp)
    rw [parseItems]
    refine ((ih n (']' :: rest) (by omega) (stops_cons (by decide))).bind True ?_).congr (and_true _).to_iff
    rintro ⟨v, left⟩ ⟨rfl, next⟩
    simp only [next, skipSpace_cons (c := ']') rfl]
    exact .done ⟨rfl, rfl⟩
  | @items text text' d items ts b first others ih ih' =>
    rintro (_ | n) rest enough
    · exact absurd enough (by simp)
    rw [List.append_assoc, List.cons_append, parseItems]
    simp only [List.length_append, List.length_cons] at enough
    refine ((ih n (',' :: (text' ++ ']' :: rest)) (by omega) (stops_cons (by decide))).bind (b = true) ?_).congr
      (by simp)
    rintro ⟨v, left⟩ ⟨rfl, next⟩
    simp only [next, skipSpace_cons (c := ',') rfl]
    refine ((ih' n rest (by omega)).bind True ?_).congr (and_true _).to_iff
    rintro ⟨vs, left⟩ ⟨same, rfl⟩
    cases same
    exact .done ⟨rfl, rfl⟩
  | @member before after text key d blank blank' ok first ih =>
    rintro (_ | n) seen rest enough
    · exact absurd enough (by simp)
    simp only [List.length_append, List.length_cons] at enough
    have read := ih n ('\x7d' :: rest) (by omega) (stops_cons (by decide))
    obtain ⟨name, colon⟩ := parseKey_quoted blank blank' ok (text ++ '\x7d' :: rest)
    simp only [List.append_assoc, List.cons_append]
    rw [parseMembers, name, ok_bind]
    dsimp only
    split
    · next known => exact ⟨fun fine => absurd known (fine.2 _ List.mem_cons_self), fun _ => ⟨_, rfl⟩⟩
    · next fresh =>
      rw [colon, ok_bind]
      refine (read.bind True ?_).congr (by simp [names, fresh])
      rintro ⟨v, left⟩ ⟨rfl, next⟩
      simp only [next, skipSpace_cons (c := '\x7d') rfl]
      exact .done ⟨rfl, rfl⟩
  | @members before after text text' key d members ts b blank blank' ok first others ih ih' =>
    rintro (_ | n) seen rest enough
    · exact absurd enough (by simp)
    simp only [List.length_append, List.length_cons] at enough
    have read := ih n (',' :: (text' ++ '\x7d' :: rest)) (by omega) (stops_cons (by decide))
    obtain ⟨name, colon⟩ := parseKey_quoted blank blank' ok (text ++ ',' :: (text' ++ '\x7d' :: rest))
    simp only [List.append_assoc, List.cons_append]
    rw [parseMembers, name, ok_bind]
    dsimp only
    split
    · next known => exact ⟨fun fine => absurd known (fine.2 _ List.mem_cons_self), fun _ => ⟨_, rfl⟩⟩
    · next fresh =>
      rw [colon, ok_bind]
      refine (read.bind (b = true ∧
        ∀ name ∈ members.map Prod.fst, name ∉ String.ofList (unescape key) :: seen) ?_).congr ?_
      · rintro ⟨v, left⟩ ⟨rfl, next⟩
        simp only [next, skipSpace_cons (c := ',') rfl]
        refine ((ih' n (String.ofList (unescape key) :: seen) rest (by omega)).bind True ?_).congr (and_true _).to_iff
        rintro ⟨vs, left⟩ ⟨same, rfl⟩
        cases same
        exact .done ⟨rfl, rfl⟩
      · simp only [names, List.map_cons, Bool.and_eq_true, decide_eq_true_eq, List.mem_cons, not_or]
        grind

end Agentnet.Canonical
