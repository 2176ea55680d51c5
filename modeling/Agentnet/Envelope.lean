import Agentnet.Basic
import Agentnet.Lib.Base64
import Agentnet.Lib.Except

/-! `internal/envelope`: the recipient's decoder of a frame, the relay's decoder of its
routing fields, and what a daemon acks. -/

set_option linter.dupNamespace false

namespace Agentnet.Envelope

open Lib Base64

/-- The routing fields of an envelope. -/
structure Header where
  fromKey : String := ""
  toKey : String := ""
  team : String := ""
  type : String := ""
  id : String := ""
  ts : String := ""
  deriving DecidableEq

/-- `Payload` is nil until the frame sets it. -/
structure Envelope where
  header : Header := {}
  payload : Option Bytes := none
  deriving DecidableEq

inductive RoutingField where
  | fromKey | toKey | team | type | id | ts
  deriving DecidableEq

inductive Field where
  | routing (f : RoutingField)
  | payload
  deriving DecidableEq

/-- One routing field. -/
def Header.set (h : Header) (value : String) : RoutingField → Header
  | .fromKey => { h with fromKey := value }
  | .toKey => { h with toKey := value }
  | .team => { h with team := value }
  | .type => { h with type := value }
  | .id => { h with id := value }
  | .ts => { h with ts := value }

def quote : UInt8 := 34
def backslash : UInt8 := 92

/-- The value of a member: null, a string by the bytes between its quotes, or any other
value by its bytes, of which the first is no quote. -/
inductive Token where
  | null
  | str (body : Bytes)
  | other (raw : Bytes) (unquoted : raw.head? ≠ some quote)

/-- A token as it stood in the text. -/
def Token.raw : Token → Bytes
  | .null => [110, 117, 108, 108]
  | .str body => quote :: body ++ [quote]
  | .other raw _ => raw

structure Member where
  key : Bytes
  value : Token

inductive Top where
  | null
  | object (members : List Member)
  | other

/-- What the model takes as given of the standard library. `field` is the struct field that
encoding/json matches a key to: both structs have the same names and tags. -/
structure Library where
  scan : Bytes → Option Top
  field : Bytes → Option Field
  text : Bytes → String
  unescape : Bytes → Bytes
  array : Bytes → Option Bytes
  isTime : String → Bool

/-! ## Validation -/

def inRange (lo hi : Nat) (c : Nat) : Bool := lo ≤ c && c ≤ hi

def base64Index (c62 c63 : Nat) (b : UInt8) : Option Nat :=
  let c := b.toNat
  if inRange 65 90 c then some (c - 65)
  else if inRange 97 122 c then some (c - 97 + 26)
  else if inRange 48 57 c then some (c - 48 + 52)
  else if c = c62 then some 62
  else if c = c63 then some 63
  else none

def stdEncoding : Encoding where
  index := base64Index 43 47
  pad := some 61

/-- `base64.RawURLEncoding.Strict()` -/
def rawURLEncoding : Encoding where
  index := base64Index 45 95
  strict := true

def publicKeySize : Nat := 32

def parseKey (s : String) : Option Bytes :=
  match decode rawURLEncoding s.toUTF8.toList with
  | some raw => if raw.length = publicKeySize then some raw else none
  | none => none

def checkKey (field s : String) : Except FieldError Unit :=
  require ((parseKey s).isSome = true) ⟨field, "not a base64url Ed25519 public key"⟩

def isTypeByte (c : Char) : Bool :=
  inRange 97 122 c.toNat || inRange 48 57 c.toNat || c == '.' || c == '_' || c == '-'

def isIDByte (c : Char) : Bool := isTypeByte c || inRange 65 90 c.toNat || c == ':'

def maxTeamLen : Nat := 128
def maxTypeLen : Nat := 64
def maxIDLen : Nat := 128

/-- The checks of the routing fields, in the order of the source. -/
def Header.validate (lib : Library) (h : Header) : Except FieldError Unit := do
  checkKey "from" h.fromKey
  checkKey "to" h.toKey
  require (h.team.utf8ByteSize ≤ maxTeamLen ∧ h.team.toList.all isIDByte = true)
    ⟨"team", "at most 128 characters from [A-Za-z0-9._:-]"⟩
  require (h.type ≠ "" ∧ h.type.utf8ByteSize ≤ maxTypeLen ∧ h.type.toList.all isTypeByte = true)
    ⟨"type", "1-64 characters from [a-z0-9._-]"⟩
  require (h.id ≠ "" ∧ h.id.utf8ByteSize ≤ maxIDLen ∧ h.id.toList.all isIDByte = true)
    ⟨"id", "1-128 characters from [A-Za-z0-9._:-]"⟩
  require (lib.isTime h.ts = true) ⟨"ts", "not an RFC 3339 time"⟩

variable {lib : Library} {frame : Bytes}

theorem validate_eq_ok {h : Header} :
    h.validate lib = .ok () ↔ (parseKey h.fromKey).isSome = true ∧ (parseKey h.toKey).isSome = true ∧
      (h.team.utf8ByteSize ≤ maxTeamLen ∧ h.team.toList.all isIDByte = true) ∧
      (h.type ≠ "" ∧ h.type.utf8ByteSize ≤ maxTypeLen ∧ h.type.toList.all isTypeByte = true) ∧
      (h.id ≠ "" ∧ h.id.utf8ByteSize ≤ maxIDLen ∧ h.id.toList.all isIDByte = true) ∧ lib.isTime h.ts = true := by
  simp only [Header.validate, checkKey, bind_eq_ok, require_eq_ok, exists_and_left, exists_const]

/-- The payload is not looked at. -/
def Envelope.validate (lib : Library) (e : Envelope) : Except FieldError Unit := e.header.validate lib

/-! ## Decoding -/

/-- A struct while encoding/json fills it: a type error is kept and the decoding goes on. -/
structure Decoded (π : Type) where
  header : Header := {}
  payload : π
  failed : Bool := false

section Unmarshal

variable {π : Type} (lib : Library) (store : Token → π → Option π)

/-- One member; a name that is not known is skipped. -/
def unmarshalMember (d : Decoded π) (m : Member) : Decoded π :=
  match lib.field m.key with
  | none => d
  | some (.routing f) =>
    match m.value with
    | .null => d
    | .str body => { d with header := d.header.set (lib.text body) f }
    | .other _ _ => { d with failed := true }
  | some .payload =>
    match store m.value d.payload with
    | some payload => { d with payload := payload }
    | none => { d with failed := true }

def unmarshalMembers (d : Decoded π) (members : List Member) : Decoded π :=
  members.foldl (unmarshalMember lib store) d

/-- `json.Unmarshal` into a struct whose payload is `zero` at first. -/
def unmarshal (zero : π) (frame : Bytes) : Option (Header × π) :=
  match lib.scan frame with
  | none => none
  | some .other => none
  | some .null => some ({}, zero)
  | some (.object members) =>
    let d := unmarshalMembers lib store { payload := zero } members
    if d.failed then none else some (d.header, d.payload)

end Unmarshal

/-- A byte that `unquote` copies: printable ASCII that is neither quote nor backslash. -/
def isPlain (c : UInt8) : Bool := 32 ≤ c.toNat && c.toNat < 128 && c != quote && c != backslash

def unquote (lib : Library) (body : Bytes) : Bytes := if body.all isPlain then body else lib.unescape body

/-- How a `[]byte` field takes a value. -/
def storeBytes (lib : Library) : Token → Option Bytes → Option (Option Bytes)
  | .null, _ => some none
  | .str body, _ => (decode stdEncoding (unquote lib body)).map some
  | .other raw _, _ => (lib.array raw).map some

/-- `Parse`: the frame as an envelope that is valid. -/
def parse (lib : Library) (frame : Bytes) : Except String Envelope :=
  match unmarshal lib (storeBytes lib) none frame with
  | none => .error "envelope: not a valid envelope frame"
  | some (header, payload) =>
    let e : Envelope := ⟨header, payload⟩
    match e.validate lib with
    | .error e => .error ("envelope: " ++ e.text)
    | .ok _ => .ok e

def isBase64Byte (b : UInt8) : Bool :=
  let c := b.toNat
  inRange 65 90 c || inRange 97 122 c || inRange 48 57 c || c == 43 || c == 47

def validPayload (raw : Bytes) : Bool :=
  if raw.length < 2 ∨ raw.head? ≠ some quote ∨ raw.getLast? ≠ some quote then false
  else
    let s := raw.tail.dropLast
    if s.length % 4 ≠ 0 then false else (unpadded 61 s).all isBase64Byte

structure PayloadCheck where
  seen : Bool := false
  bad : Bool := false
  deriving DecidableEq

/-- `payloadCheck.UnmarshalJSON`, which never fails. -/
def judge (value : Token) (p : PayloadCheck) : Option PayloadCheck :=
  some { seen := true, bad := p.bad || !validPayload value.raw }

/-- There was a payload and nothing was wrong with it. -/
def PayloadCheck.ok (p : PayloadCheck) : Bool := p.seen && !p.bad

inductive HeaderError where
  | notJSON
  | invalid (e : FieldError)
  | badPayload
  deriving DecidableEq

/-- The error stands beside the header that is returned with it. -/
def parseHeader (lib : Library) (frame : Bytes) : Except (Header × HeaderError) Header :=
  match unmarshal lib judge {} frame with
  | none => .error ({}, .notJSON)
  | some (header, payload) =>
    match header.validate lib with
    | .error e => .error (header, .invalid e)
    | .ok _ => if payload.ok then .ok header else .error (header, .badPayload)

/-- The `(from, id, type)` that a daemon acks for a frame it cannot parse. -/
def ackTarget (lib : Library) (frame : Bytes) : Option (String × String × String) :=
  match unmarshal lib judge {} frame with
  | none => none
  | some (header, _) =>
    match header.validate lib with
    | .error _ => none
    | .ok _ => some (header.fromKey, header.id, header.type)

/-! ## The shape check of a payload -/

theorem isBase64Byte_eq (c : UInt8) : isBase64Byte c = (stdEncoding.index c).isSome := by
  simp only [isBase64Byte, stdEncoding, base64Index]
  split_ifs <;> simp_all

theorem isBase64Byte_facts {c : UInt8} (h : isBase64Byte c = true ∨ c = 61) :
    isPlain c = true ∧ isBreak c = false ∧ c ≠ backslash := by
  have bytes : ∀ n : Fin 256, isBase64Byte (UInt8.ofFin n) = true ∨ UInt8.ofFin n = 61 →
      isPlain (UInt8.ofFin n) = true ∧ isBreak (UInt8.ofFin n) = false ∧ UInt8.ofFin n ≠ backslash := by
    decide +kernel
  exact bytes c.toFin h

theorem mem_unpadded (p : UInt8) {s : Bytes} {c : UInt8} (member : c ∈ s) : c ∈ unpadded p s ∨ c = p := by
  have split_last : ∀ {t : Bytes}, t.getLast? = some p → c ∈ t → c ∈ t.dropLast ∨ c = p := by
    intro t last inside
    rw [← List.dropLast_append_getLast? p last] at inside
    simpa using inside
  unfold unpadded
  split
  · next last =>
    rcases split_last last member with inside | rfl
    · split
      · next second => exact split_last second inside
      · exact .inl inside
    · exact .inr rfl
  · exact .inl member

theorem plain_of_groups {s : Bytes} (h : (groups stdEncoding s).isSome = true) {c : UInt8}
    (member : c ∈ s) : isPlain c = true ∧ isBreak c = false ∧ c ≠ backslash := by
  obtain ⟨-, inside⟩ := (groups_isSome (p := 61) rfl rfl rfl s).mp h
  apply isBase64Byte_facts
  rcases mem_unpadded 61 member with within | pad
  · exact .inl ((isBase64Byte_eq c).trans (inside c within))
  · exact .inr pad

theorem validPayload_quoted (s : Bytes) :
    validPayload (quote :: s ++ [quote]) = true ↔ (groups stdEncoding s).isSome = true := by
  rw [groups_isSome (p := 61) rfl rfl rfl]
  have last : (quote :: (s ++ [quote])).getLast? = some quote := by
    rw [← List.cons_append, List.getLast?_concat]
  simp [validPayload, isBase64Byte_eq, last]

theorem exists_body_of_validPayload {raw : Bytes} (h : validPayload raw = true) :
    ∃ s, raw = quote :: s ++ [quote] := by
  unfold validPayload at h
  split at h
  · cases h
  · next shape =>
    push Not at shape
    obtain ⟨long, first, last⟩ := shape
    match raw, long, first, last with
    | a :: b :: rest, _, first, last =>
      refine ⟨(b :: rest).dropLast, ?_⟩
      have closing : (b :: rest).getLast? = some quote := by simpa using last
      rw [List.cons_append, List.dropLast_append_getLast? quote closing]
      exact congrArg (· :: b :: rest) (Option.some.inj first)

theorem validPayload_spec (raw : Bytes) : validPayload raw = true ↔
      ∃ s, raw = quote :: s ++ [quote] ∧ backslash ∉ s ∧ (decode stdEncoding s).isSome = true ∧ (10 : UInt8) ∉ s ∧
      (13 : UInt8) ∉ s := by
  constructor
  · intro valid
    obtain ⟨s, rfl⟩ := exists_body_of_validPayload valid
    have accepted := (validPayload_quoted s).mp valid
    have plain := fun c (member : c ∈ s) => plain_of_groups accepted member
    refine ⟨s, rfl, ?_, ?_, ?_, ?_⟩
    · intro member
      exact (plain _ member).2.2 rfl
    · rw [decode_of_no_break fun c member => (plain c member).2.1]
      exact accepted
    · intro member
      cases (plain _ member).2.1
    · intro member
      cases (plain _ member).2.1
  · rintro ⟨s, rfl, -, accepted, noLF, noCR⟩
    rw [validPayload_quoted]
    rw [decode_of_no_break] at accepted
    · exact accepted
    · intro c member
      have lf : c ≠ 10 := fun h => noLF (h ▸ member)
      have cr : c ≠ 13 := fun h => noCR (h ▸ member)
      simp [isBreak, lf, cr]

theorem storeBytes_of_validPayload (lib : Library) {value : Token}
    (valid : validPayload value.raw = true) ( held : Option Bytes) :
    ∃ payload, storeBytes lib value held = some payload := by
  cases value with
  | null => cases valid
  | str body =>
    have accepted := (validPayload_quoted body).mp valid
    have plain := fun c (member : c ∈ body) => plain_of_groups accepted member
    have copied : unquote lib body = body := if_pos (List.all_eq_true.mpr fun c member => (plain c member).1)
    have decoded := accepted
    rw [← decode_of_no_break fun c member => (plain c member).2.1] at decoded
    obtain ⟨bytes, hbytes⟩ := Option.isSome_iff_exists.mp decoded
    exact ⟨some bytes, by simp only [storeBytes, copied, hbytes, Option.map_some]⟩
  | other raw unquoted =>
    obtain ⟨s, hs⟩ := exists_body_of_validPayload valid
    exact absurd (by simpa [Token.raw] using congrArg List.head? hs) unquoted

/-! ## The two decoders side by side -/

/-- The relay's decoding agrees with the recipient's as long as no payload was bad. -/
structure Agree (d : Decoded (Option Bytes)) (w : Decoded PayloadCheck) : Prop where
  header : w.header = d.header
  failed : w.payload.bad = false → w.failed = d.failed

/-- The two decoders agree on one member. -/
theorem Agree.member (lib : Library) {d : Decoded (Option Bytes)} {w : Decoded PayloadCheck}
    (agree : Agree d w) (m : Member) :
    Agree (unmarshalMember lib (storeBytes lib) d m) (unmarshalMember lib judge w m) := by
  unfold unmarshalMember
  cases lib.field m.key with
  | none => exact agree
  | some field =>
    cases field with
    | routing f =>
      cases m.value with
      | null => exact agree
      | str body => exact ⟨congrArg (·.set (lib.text body) f) agree.header, agree.failed⟩
      | other raw unquoted => exact ⟨agree.header, fun _ => rfl⟩
    | payload =>
      simp only [judge]
      constructor
      · cases storeBytes lib m.value d.payload <;> exact agree.header
      · intro good
        obtain ⟨before, valid⟩ := Bool.or_eq_false_iff.mp good
        obtain ⟨payload, stored⟩ := storeBytes_of_validPayload lib (Bool.not_eq_false_eq_eq_true _ ▸ valid) d.payload
        simp only [stored]
        exact agree.failed before

/-- And so on a whole object. -/
theorem Agree.members (lib : Library) (ms : List Member) {d : Decoded (Option Bytes)} {w : Decoded PayloadCheck}
    (agree : Agree d w) :
    Agree (unmarshalMembers lib (storeBytes lib) d ms) (unmarshalMembers lib judge w ms) := by
  induction ms generalizing d w with
  | nil => exact agree
  | cons m ms ih => exact ih (agree.member lib m)

theorem unmarshal_agrees {header : Header} {check : PayloadCheck}
    (decoded : unmarshal lib judge {} frame = some (header, check)) (ok : check.ok = true) :
    ∃ payload, unmarshal lib (storeBytes lib) none frame = some (header, payload) := by
  obtain ⟨-, good⟩ := Bool.and_eq_true_iff.mp ok
  unfold unmarshal at decoded ⊢
  cases scanned : lib.scan frame with
  | none => rw [scanned] at decoded; cases decoded
  | some top =>
    rw [scanned] at decoded
    cases top with
    | other => cases decoded
    | null =>
      simp only [Option.some.injEq, Prod.mk.injEq] at decoded
      exact ⟨none, by rw [← decoded.1]⟩
    | object ms =>
      have agree := Agree.members lib ms (d := { payload := none }) (w := { payload := {} })
        ⟨rfl, fun _ => rfl⟩
      simp only at decoded ⊢
      split at decoded
      · cases decoded
      · next whole =>
        simp only [Option.some.injEq, Prod.mk.injEq] at decoded
        obtain ⟨rfl, rfl⟩ := decoded
        have same := agree.failed (by simpa using good)
        rw [if_neg (by rw [← same]; exact whole), agree.header]
        exact ⟨_, rfl⟩

theorem parseHeader_eq_ok {h : Header} : parseHeader lib frame = .ok h ↔
      ∃ check, unmarshal lib judge {} frame = some (h, check) ∧ h.validate lib = .ok () ∧ check.ok = true := by
  unfold parseHeader
  cases unmarshal lib judge {} frame with
  | none => simp
  | some decoded =>
    obtain ⟨header, check⟩ := decoded
    simp only [Option.some.injEq, Prod.mk.injEq]
    cases valid : header.validate lib with
    | error e => grind
    | ok u => cases ok : check.ok <;> grind

/-- What the relay lets in, the recipient parses to the same routing fields and can ack. -/
theorem parseHeader_agrees_with_recipient (lib : Library) : (∀ frame h, parseHeader lib frame = .ok h →
      (∃ payload, parse lib frame = .ok ⟨h, payload⟩) ∧ ackTarget lib frame = some (h.fromKey, h.id, h.type)) ∧
    ∀ raw, validPayload raw = true ↔
      ∃ s, raw = quote :: s ++ [quote] ∧ backslash ∉ s ∧ (decode stdEncoding s).isSome = true ∧
        (10 : UInt8) ∉ s ∧ (13 : UInt8) ∉ s := by
  refine ⟨?_, validPayload_spec⟩
  intro frame h accepted
  obtain ⟨check, decoded, valid, ok⟩ := parseHeader_eq_ok.mp accepted
  obtain ⟨payload, recipient⟩ := unmarshal_agrees decoded ok
  constructor
  · exact ⟨payload, by simp only [parse, recipient, Envelope.validate, valid]⟩
  · simp only [ackTarget, decoded, valid]

/-! A frame with a repeated, a null and a case-variant member. -/

def ascii (body : Bytes) : String := String.ofList (body.map fun c => Char.ofNat c.toNat)

def sampleField (key : Bytes) : Option Field :=
  match (ascii key).toLower with
  | "from" => some (.routing .fromKey)
  | "to" => some (.routing .toKey)
  | "team" => some (.routing .team)
  | "type" => some (.routing .type)
  | "id" => some (.routing .id)
  | "ts" => some (.routing .ts)
  | "payload" => some .payload
  | _ => none

def sampleMember (key : String) (body : Bytes) : Member := ⟨key.toUTF8.toList, .str body⟩

def sampleKey : Bytes := List.replicate 43 65

def sampleMembers : List Member :=
  [sampleMember "from" sampleKey, sampleMember "to" sampleKey, sampleMember "type" [109],
    sampleMember "ID" [49], sampleMember "id" [50], ⟨"id".toUTF8.toList, .null⟩,
    sampleMember "ts" "2026-01-01T00:00:00Z".toUTF8.toList, sampleMember "payload" "TQ==".toUTF8.toList,
    sampleMember "PAYLOAD" []]

/-- The object with these members, without blanks. -/
def sampleFrame : Bytes :=
  123 :: List.intercalate [44] (sampleMembers.map fun m => quote :: m.key ++ quote :: 58 :: m.value.raw) ++ [125]

/-- What the standard library does with that frame, in which nothing is escaped. -/

def sampleLibrary : Library where
  scan frame := if frame = sampleFrame then some (.object sampleMembers) else none
  field := sampleField
  text := ascii
  unescape := id
  array _ := none
  isTime s := s = "2026-01-01T00:00:00Z"

def sampleHeader : Header :=
  { fromKey := ascii sampleKey, toKey := ascii sampleKey, type := "m", id := "2", ts := "2026-01-01T00:00:00Z" }

theorem sampleFrame_agrees : parseHeader sampleLibrary sampleFrame = .ok sampleHeader ∧
      (∃ payload, parse sampleLibrary sampleFrame = .ok ⟨sampleHeader, payload⟩) ∧
      ackTarget sampleLibrary sampleFrame = some (sampleHeader.fromKey, sampleHeader.id, sampleHeader.type) := by
  have accepted : parseHeader sampleLibrary sampleFrame = .ok sampleHeader := by
    rw [parseHeader_eq_ok]
    exact ⟨⟨true, false⟩, by decide +kernel, validate_eq_ok.mpr (by decide +kernel), rfl⟩
  exact ⟨accepted, (parseHeader_agrees_with_recipient sampleLibrary).1 _ _ accepted⟩

end Agentnet.Envelope
