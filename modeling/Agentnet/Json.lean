import Mathlib.Data.List.Sort

/-! Generic JSON values as the strict parser returns them, and the canonical
serialisation of `agentcard`: sorted keys, minimal escapes, safe integers. -/

namespace Agentnet

/-- A number literal: a canonical integer, the literal `-0`, or any other one
(a fraction or an exponent). -/
inductive Number where
  | int (i : Int)
  | negZero
  | other (literal : String)
  deriving DecidableEq

/-- A JSON value; members keep their order. -/
inductive Json where
  | null
  | bool (b : Bool)
  | num (n : Number)
  | str (s : String)
  | arr (items : List Json)
  | obj (members : List (String × Json))

namespace Json

/-- The first member of the name. -/
def member (members : List (String × Json)) (key : String) : Option Json := members.lookup key

@[elab_as_elim]
theorem ind {motive : Json → Prop} (null : motive .null) (bool : ∀ b, motive (.bool b)) (num : ∀ n, motive (.num n))
    (str : ∀ s, motive (.str s)) (arr : ∀ items, (∀ item ∈ items, motive item) → motive (.arr items))
    (obj : ∀ members, (∀ m ∈ members, motive m.2) → motive (.obj members)) (v : Json) : motive v := by
  refine @Json.rec motive (fun items => ∀ item ∈ items, motive item) (fun members => ∀ m ∈ members, motive m.2)
    (fun m => motive m.2) null bool num str arr obj ?_ ?_ ?_ ?_ (fun _ _ h => h) v
  · exact fun _ none_ => (by cases none_)
  · intro item items first rest x mem
    obtain rfl | mem := List.mem_cons.mp mem
    · exact first
    · exact rest x mem
  · exact fun _ none_ => (by cases none_)
  · intro m members first rest x mem
    obtain rfl | mem := List.mem_cons.mp mem
    · exact first
    · exact rest x mem

end Json

/-- `json.Number.Int64`. -/
def Number.int64? : Number → Option Int
  | .int i => if -9223372036854775808 ≤ i ∧ i ≤ 9223372036854775807 then some i else none
  | .negZero => some 0
  | .other _ => none

/-- The largest magnitude a JSON number may have here is below this. -/
def maxSafeInt : Int := 9007199254740992

def Number.canonical : Number → Except String String
  | .int i => if -maxSafeInt < i ∧ i < maxSafeInt then .ok (toString i)
      else .error "number is out of range"
  | .negZero => .error "number is not a canonical integer"
  | .other _ => .error "number is not a canonical integer"

/-- The UTF-16 code units of a character, the order of object keys. -/
def utf16Units (c : Char) : List Nat :=
  if c.toNat < 0x10000 then [c.toNat]
  else [0xD800 + (c.toNat - 0x10000) / 0x400, 0xDC00 + (c.toNat - 0x10000) % 0x400]

def unitsLe : List Nat → List Nat → Bool
  | [], _ => true
  | _ :: _, [] => false
  | a :: as, b :: bs => if a = b then unitsLe as bs else decide (a < b)

def utf16Le (a b : String) : Bool := unitsLe (a.toList.flatMap utf16Units) (b.toList.flatMap utf16Units)

def hexDigit (n : Nat) : Char := "0123456789abcdef".toList.getD n '0'

def escapeChar (c : Char) : List Char :=
  if c = '"' then ['\\', '"']
  else if c = '\\' then ['\\', '\\']
  else if c = '\x08' then ['\\', 'b']
  else if c = '\t' then ['\\', 't']
  else if c = '\n' then ['\\', 'n']
  else if c = '\x0c' then ['\\', 'f']
  else if c = '\r' then ['\\', 'r']
  else if c.toNat < 0x20 then ['\\', 'u', '0', '0', hexDigit (c.toNat / 16), hexDigit (c.toNat % 16)]
  else [c]

def writeString (s : String) : String := "\"" ++ String.ofList (s.toList.flatMap escapeChar) ++ "\""

def joinItems : List String → String
  | [] => ""
  | [x] => x
  | x :: y :: rest => x ++ "," ++ joinItems (y :: rest)

def writeMembers (members : List (String × String)) : String :=
  joinItems ((members.insertionSort fun a b => utf16Le a.1 b.1 = true).map
    fun m => writeString m.1 ++ ":" ++ m.2)

mutual

/-- `CanonicalValue`. Members are serialised before they are sorted; the source
sorts first, which changes only which of several bad numbers is reported. -/
def canonicalValue : Json → Except String String
  | .null => .ok "null"
  | .bool b => .ok (if b then "true" else "false")
  | .num n => n.canonical
  | .str s => .ok (writeString s)
  | .arr items => do
    let texts ← canonicalItems items
    return "[" ++ joinItems texts ++ "]"
  | .obj members => do
    let texts ← canonicalMembers members
    return "\x7b" ++ writeMembers texts ++ "\x7d"

def canonicalItems : List Json → Except String (List String)
  | [] => .ok []
  | item :: rest => do
    let text ← canonicalValue item
    let texts ← canonicalItems rest
    return text :: texts

def canonicalMembers : List (String × Json) → Except String (List (String × String))
  | [] => .ok []
  | (key, value) :: rest => do
    let text ← canonicalValue value
    let texts ← canonicalMembers rest
    return (key, text) :: texts

end

example : canonicalValue (.obj [("b", .num (.int 2)), ("a", .arr [.bool true, .str "x\n"])]) =
    .ok "\x7b\"a\":[true,\"x\\n\"],\"b\":2\x7d" := by decide

end Agentnet
