import Agentnet.Json

/-! `ParseStrict` of `agentcard`: a document in valid UTF-8 is read into generic values, as RFC 8259
has it, where a name may not occur twice in an object and a surrogate escape not alone. -/

namespace Agentnet.Canonical

/-- Why a document is refused. -/
inductive ParseError where
  | loneSurrogate (at_ : Nat)
  | invalidJSON
  | duplicateKey (key : String)
  | trailingData
  deriving DecidableEq

/-! ## Escapes -/

def hexValue (c : Char) : Option Nat :=
  if '0' ≤ c ∧ c ≤ '9' then some (c.toNat - 48)
  else if 'a' ≤ c ∧ c ≤ 'f' then some (c.toNat - 87)
  else if 'A' ≤ c ∧ c ≤ 'F' then some (c.toNat - 55)
  else none

/-- Four hex digits and what follows them. -/
def hex4 : List Char → Option (Nat × List Char)
  | a :: b :: c :: d :: rest => do
    let a ← hexValue a
    let b ← hexValue b
    let c ← hexValue c
    let d ← hexValue d
    return (((a * 16 + b) * 16 + c) * 16 + d, rest)
  | _ => none

def isHigh (v : Nat) : Bool := 0xD800 ≤ v ∧ v ≤ 0xDBFF

def isLow (v : Nat) : Bool := 0xDC00 ≤ v ∧ v ≤ 0xDFFF

/-- `checkSurrogates` from byte `pos`, inside a string or not. The first argument is more than the
characters left. Malformed escapes are left to the decoder. -/
def checkSurrogates : Nat → Nat → Bool → List Char → Except ParseError Unit
  | 0, _, _, _ => .ok ()
  | _, _, _, [] => .ok ()
  | n + 1, pos, false, c :: rest => checkSurrogates n (pos + c.utf8Size) (c = '"') rest
  | n + 1, pos, true, c :: rest =>
    if c = '"' then checkSurrogates n (pos + 1) false rest
    else if c ≠ '\\' then checkSurrogates n (pos + c.utf8Size) true rest
    else
      match rest with
      | [] => .ok ()
      | d :: rest =>
        if d ≠ 'u' then checkSurrogates n (pos + 1 + d.utf8Size) true rest
        else
          match hex4 rest with
          | none => .ok ()
          | some (v, rest) =>
            if isLow v then .error (.loneSurrogate pos)
            else if isHigh v then
              match rest with
              | '\\' :: 'u' :: rest =>
                match hex4 rest with
                | some (lo, rest) =>
                  if isLow lo then checkSurrogates n (pos + 12) true rest
                  else .error (.loneSurrogate pos)
                | none => .error (.loneSurrogate pos)
              | _ => .error (.loneSurrogate pos)
            else checkSurrogates n (pos + 6) true rest

/-! ## Tokens of the decoder -/

def replacement : Char := '�'

/-- The character of a surrogate pair. -/
def pair (high low : Nat) : Char := Char.ofNat (0x10000 + (high - 0xD800) * 0x400 + (low - 0xDC00))

/-- `\u` with the code unit `v`: a surrogate without its pair is read as U+FFFD. -/
def lexUnit (v : Nat) (rest : List Char) : Char × List Char :=
  if isHigh v then
    match rest with
    | '\\' :: 'u' :: digits =>
      match hex4 digits with
      | some (lo, left) => if isLow lo then (pair v lo, left) else (replacement, rest)
      | none => (replacement, rest)
    | _ => (replacement, rest)
  else if isLow v then (replacement, rest)
  else (Char.ofNat v, rest)

/-- What follows a backslash. -/
def lexEscape : List Char → Option (Char × List Char)
  | '"' :: rest => some ('"', rest)
  | '\\' :: rest => some ('\\', rest)
  | '/' :: rest => some ('/', rest)
  | 'b' :: rest => some ('\x08', rest)
  | 'f' :: rest => some ('\x0c', rest)
  | 'n' :: rest => some ('\n', rest)
  | 'r' :: rest => some ('\r', rest)
  | 't' :: rest => some ('\t', rest)
  | 'u' :: rest => (hex4 rest).map fun (v, left) => lexUnit v left
  | _ => none

def lexChar : List Char → Option (Char × List Char)
  | [] => none
  | c :: rest => if c = '\\' then lexEscape rest else if c.toNat < 0x20 then none else some (c, rest)

/-- A string up to its closing quote. -/
def lexString : Nat → List Char → Option (List Char × List Char)
  | 0, _ => none
  | _, [] => none
  | n + 1, c :: cs =>
    if c = '"' then some ([], cs)
    else do
      let (x, left) ← lexChar (c :: cs)
      let (xs, left) ← lexString n left
      return (x :: xs, left)

def lexInt : List Char → Option (List Char × List Char)
  | [] => none
  | c :: rest =>
    if c = '0' then some (['0'], rest)
    else if c.isDigit then some (c :: rest.takeWhile Char.isDigit, rest.dropWhile Char.isDigit)
    else none

def lexDigits (cs : List Char) : Option (List Char × List Char) :=
  if cs.takeWhile Char.isDigit = [] then none else some (cs.takeWhile Char.isDigit, cs.dropWhile Char.isDigit)

def lexFraction : List Char → Option (List Char × List Char)
  | '.' :: rest => (lexDigits rest).map fun (digits, left) => ('.' :: digits, left)
  | cs => some ([], cs)

def lexSign : List Char → List Char × List Char
  | '+' :: rest => (['+'], rest)
  | '-' :: rest => (['-'], rest)
  | cs => ([], cs)

def lexExponent : List Char → Option (List Char × List Char)
  | [] => some ([], [])
  | c :: rest =>
    if c = 'e' ∨ c = 'E' then
      (lexDigits (lexSign rest).2).map fun (digits, left) => (c :: (lexSign rest).1 ++ digits, left)
    else some ([], c :: rest)

/-- An integer without fraction and exponent; anything else keeps its text. -/
def number (negative : Bool) (int fraction exponent : List Char) : Number :=
  let sign := if negative then ['-'] else []
  if fraction = [] ∧ exponent = [] then
    if negative then
      if int = ['0'] then .negZero else .int (-(Nat.ofDigitChars 10 int 0 : Int))
    else .int (Nat.ofDigitChars 10 int 0 : Int)
  else .other (String.ofList (sign ++ int ++ fraction ++ exponent))

def lexNumber (cs : List Char) : Option (Number × List Char) := do
  let (negative, cs) := match cs with
    | '-' :: rest => (true, rest)
    | cs => (false, cs)
  let (int, cs) ← lexInt cs
  let (fraction, cs) ← lexFraction cs
  let (exponent, cs) ← lexExponent cs
  return (number negative int fraction exponent, cs)

def isSpace (c : Char) : Bool := c = ' ' ∨ c = '\t' ∨ c = '\n' ∨ c = '\r'

def skipSpace (cs : List Char) : List Char := cs.dropWhile isSpace

/-! ## Values -/

def token {α : Type} (read : Option α) : Except ParseError α :=
  match read with
  | some x => .ok x
  | none => .error .invalidJSON

def parseKey (cs : List Char) : Except ParseError (String × List Char) :=
  match skipSpace cs with
  | '"' :: rest => do
    let (key, left) ← token (lexString (rest.length + 1) rest)
    return (String.ofList key, left)
  | _ => .error .invalidJSON

def parseColon (cs : List Char) : Except ParseError (List Char) :=
  match skipSpace cs with
  | ':' :: rest => .ok rest
  | _ => .error .invalidJSON

mutual

/-- `parseValue`. The first argument is at least the number of characters left. -/
def parseValue : Nat → List Char → Except ParseError (Json × List Char)
  | 0, _ => .error .invalidJSON
  | n + 1, cs =>
    match skipSpace cs with
    | 'n' :: 'u' :: 'l' :: 'l' :: rest => .ok (.null, rest)
    | 't' :: 'r' :: 'u' :: 'e' :: rest => .ok (.bool true, rest)
    | 'f' :: 'a' :: 'l' :: 's' :: 'e' :: rest => .ok (.bool false, rest)
    | '"' :: rest => do
      let (s, left) ← token (lexString (rest.length + 1) rest)
      return (.str (String.ofList s), left)
    | '[' :: rest =>
      match skipSpace rest with
      | ']' :: left => .ok (.arr [], left)
      | _ => do
        let (items, left) ← parseItems n rest
        return (.arr items, left)
    | '\x7b' :: rest =>
      match skipSpace rest with
      | '\x7d' :: left => .ok (.obj [], left)
      | _ => do
        let (members, left) ← parseMembers n [] rest
        return (.obj members, left)
    | cs => do
      let (number, left) ← token (lexNumber cs)
      return (.num number, left)

/-- The items of an array, one at least, and its closing bracket. -/
def parseItems : Nat → List Char → Except ParseError (List Json × List Char)
  | 0, _ => .error .invalidJSON
  | n + 1, cs => do
    let (item, left) ← parseValue n cs
    match skipSpace left with
    | ',' :: rest =>
      let (items, left) ← parseItems n rest
      return (item :: items, left)
    | ']' :: rest => return ([item], rest)
    | _ => .error .invalidJSON

/-- The members of an object, one at least, behind those under the names `seen`. -/
def parseMembers : Nat → List String → List Char → Except ParseError (List (String × Json) × List Char)
  | 0, _, _ => .error .invalidJSON
  | n + 1, seen, cs => do
    let (key, left) ← parseKey cs
    if key ∈ seen then .error (.duplicateKey key)
    else
      let left ← parseColon left
      let (value, left) ← parseValue n left
      match skipSpace left with
      | ',' :: rest =>
        let (members, left) ← parseMembers n (key :: seen) rest
        return ((key, value) :: members, left)
      | '\x7d' :: rest => return ([(key, value)], rest)
      | _ => .error .invalidJSON

end

def parseDocument (data : List Char) : Except ParseError Json := do
  let (v, left) ← parseValue (data.length + 1) data
  match skipSpace left with
  | [] => return v
  | _ => .error .trailingData

/-- `ParseStrict`. -/
def parseStrict (data : String) : Except ParseError Json := do
  checkSurrogates (data.length + 1) 0 false data.toList
  parseDocument data.toList

/-- `ParseStrict` without the rule for surrogates. -/
def parseLegacy (data : String) : Except ParseError Json := parseDocument data.toList

example : (parseStrict "\x7b \"b\": [-12, \"\\ud83d\\ude00\"], \"a\" : null \x7d").map canonicalValue =
    .ok (.ok "\x7b\"a\":null,\"b\":[-12,\"😀\"]\x7d") := by decide +kernel

example : (parseStrict "[\"x\\ud83d\"]").map canonicalValue = .error (.loneSurrogate 3) := by decide +kernel

end Agentnet.Canonical
