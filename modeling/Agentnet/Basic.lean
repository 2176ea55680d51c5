import Mathlib.Data.Int.ConditionallyCompleteOrder
import Mathlib.Order.ConditionallyCompleteLattice.Basic
import Agentnet.Json

/-! Times, identifiers, errors and the field checks that the packages share. -/

namespace Agentnet

/-- A time in nanoseconds. -/
abbrev Time := Int

/-- A wire time: whole seconds. Its text is RFC 3339, which orders as the number. -/
abbrev WireTime := Int

abbrev StoreTime := Int

def second : Int := 1000000000
def minute : Int := 60 * second
def hour : Int := 60 * minute
def day : Int := 24 * hour

def wireTime (t : Time) : WireTime := t / 1000000000
/-- As the database keeps it: in milliseconds. -/
def storeTime (t : Time) : StoreTime := t / 1000000
def parseWireTime (w : WireTime) : Time := w * 1000000000
def parseStoreTime (s : StoreTime) : Time := s * 1000000

/-- Storing a time keeps the order. -/
theorem storeTime_mono {t t' : Time} (h : t ≤ t') : storeTime t ≤ storeTime t' := Int.ediv_le_ediv (by decide) h

theorem toList_pushn (c : Char) (k : Nat) : ("".pushn c k).toList = List.replicate k c := by
  induction k with
  | zero => rfl
  | succ k ih =>
    rw [String.pushn_eq_repeat_push] at ih ⊢
    rw [Nat.repeat, String.toList_push, ih, List.replicate_succ']

def padDigits (width : Nat) (n : Nat) : String :=
  let digits := toString n
  "".pushn '0' (width - digits.length) ++ digits

def yearText (y : Int) : String := if y < 0 then "-" ++ padDigits 4 (-y).toNat else padDigits 4 y.toNat

/-- The text `2006-01-02T15:04:05Z` of a wire time, by the civil calendar. -/
def wireTimeText (w : WireTime) : String :=
  let days := w / 86400
  let rest := (w % 86400).toNat
  let z := days + 719468
  let era := z / 146097
  let doe := z % 146097
  let yoe := (doe - doe / 1460 + doe / 36524 - doe / 146096) / 365
  let doy := doe - (365 * yoe + yoe / 4 - yoe / 100)
  let mp := (5 * doy + 2) / 153
  let d := doy - (153 * mp + 2) / 5 + 1
  let m := if mp < 10 then mp + 3 else mp - 9
  let y := yoe + era * 400 + (if m ≤ 2 then 1 else 0)
  yearText y ++ "-" ++ padDigits 2 m.toNat ++ "-" ++ padDigits 2 d.toNat ++ "T" ++
    padDigits 2 (rest / 3600) ++ ":" ++ padDigits 2 (rest % 3600 / 60) ++ ":" ++
    padDigits 2 (rest % 60) ++ "Z"

example : wireTimeText (wireTime (1767225599 * second + 5)) = "2025-12-31T23:59:59Z" := by decide

/-- A public key, in base64. -/
abbrev PeerKey := String
abbrev RequestID := String
abbrev TeamID := String
abbrev SessionID := String

/-- SHA-256, as the lowercase hex text of the digest. The model takes any function. -/
structure Crypto where
  sha256 : String → String

def isLowerHex (c : Char) : Bool := ('0' ≤ c && c ≤ '9') || ('a' ≤ c && c ≤ 'f')

/-- `request.ValidID`: `r-` and 32 lowercase hex characters. -/
def validID (s : RequestID) : Bool :=
  match s.toList with
  | 'r' :: '-' :: rest => rest.length == 32 && rest.all isLowerHex
  | _ => false

structure FieldError where
  field : String
  reason : String
  deriving DecidableEq

/-- The errors of `request` and `worksession`. `badBody` and `limit` are the two
mail errors that refuse a mail for good. -/
inductive Error where
  | field (e : FieldError)
  | tooLarge (what : String) (size limit : Nat)
  | requestBadState (state msg : String)
  | sessionBadState (state msg : String)
  | unknownRequest
  | ambiguousRequest
  | unknownSession
  | notRequester
  | notWorker
  | badBody (msg : String)
  | limit (msg : String)
  | failed (msg : String)
  deriving DecidableEq

/-- The text of the error. -/
def FieldError.text (e : FieldError) : String := e.field ++ ": " ++ e.reason

/-- A field check of a peer's body: the violation is a bad body. -/
def orBadBody {α : Type} (package : String) : Except FieldError α → Except Error α
  | .ok a => .ok a
  | .error e => .error (.badBody (package ++ ": " ++ e.text))

def orField {α : Type} : Except FieldError α → Except Error α
  | .ok a => .ok a
  | .error e => .error (.field e)

theorem orBadBody_eq_ok {α : Type} {package : String} {x : Except FieldError α} {a : α} :
    orBadBody package x = .ok a ↔ x = .ok a := by
  cases x <;> simp [orBadBody]

theorem orField_eq_ok {α : Type} {x : Except FieldError α} {a : α} : orField x = .ok a ↔ x = .ok a := by
  cases x <;> simp [orField]

/-- A control character (U+0000-U+001F, U+007F) outside `allowed`, or U+FFFD. -/
def hasControl (s allowed : String) : Bool :=
  s.toList.any fun r => r == '�' ||
    ((r.toNat ≤ 0x1F || r.toNat == 0x7F) && !allowed.toList.contains r)

/-- A string is a sequence of code points here, so it is always valid UTF-8. -/
def checkCodePoints (field s : String) (lo hi : Nat) (allowed : String) : Except FieldError Unit :=
  if s.length < lo ∨ s.length > hi then
    .error ⟨field, s!"must be {lo}-{hi} code points"⟩
  else if hasControl s allowed then
    .error ⟨field, "must not contain control characters"⟩
  else .ok ()

def checkBytes (field s : String) (lo hi : Nat) : Except FieldError Unit :=
  if s.utf8ByteSize < lo ∨ s.utf8ByteSize > hi then
    .error ⟨field, s!"must be {lo}-{hi} bytes"⟩
  else .ok ()

def whenPresent (s : String) (check : Except FieldError Unit) : Except FieldError Unit :=
  if s = "" then .ok () else check

/-- `nullIfEmpty`: the column value of an optional text. -/
def nullIfEmpty (s : String) : Option String := if s = "" then none else some s

end Agentnet
