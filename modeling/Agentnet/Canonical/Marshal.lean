import Agentnet.Canonical.Members

/-! `json.Marshal` and `json.MarshalIndent` as styles of the writer. -/

namespace Agentnet.Canonical

/-- Characters that are markup in HTML are escaped too, and the two line separators. -/
def htmlChar (c : Char) : List Char :=
  if c = '<' ∨ c = '>' ∨ c = '&' then ['\\', 'u', '0', '0', hexDigit (c.toNat / 16), hexDigit (c.toNat % 16)]
  else if c = '\u2028' then ['\\', 'u', '2', '0', '2', '8']
  else if c = '\u2029' then ['\\', 'u', '2', '0', '2', '9']
  else escapeChar c

theorem written_htmlChar (c : Char) : Written c (htmlChar c) := by
  rw [htmlChar]
  split
  · next mark =>
    have low : c.toNat < 0x100 := by
      obtain rfl | rfl | rfl := mark <;> decide
    exact .unit _ _ _ _ fun rest => hex4_hexDigits low rest
  split
  · next e => exact e ▸ .unit '2' '0' '2' '8' fun _ => rfl
  split
  · next e => exact e ▸ .unit '2' '0' '2' '9' fun _ => rfl
  · exact written_escapeChar c

/-- The escaping of `json.Marshal`, which also hides `<`, `>` and `&`. -/
def Escaping.html : Escaping := ⟨htmlChar, written_htmlChar⟩

/-- `json.Marshal`. -/
def marshal (v : Json) : String := String.ofList (write (.compact .html) 0 v)

/-- `json.MarshalIndent` with two spaces. -/
def Style.indent : Style where
  esc := .html
  gap depth := '\n' :: List.replicate (2 * depth) ' '
  colon := [' ']
  gap_space depth c mem := by
    obtain rfl | mem := List.mem_cons.mp mem
    · rfl
    · rw [List.eq_of_mem_replicate mem]
      rfl
  colon_space c mem := by
    rw [List.mem_singleton.mp mem]
    rfl

def marshalIndent (v : Json) : String := String.ofList (write .indent 0 v)

theorem parseStrict_marshal {v : Json} (g : Generic v) : parseStrict (marshal v) = .ok v := parseStrict_write _ v g

theorem parseStrict_marshalIndent {v : Json} (g : Generic v) : parseStrict (marshalIndent v) = .ok v :=
  parseStrict_write _ v g

/-! ## Without space a text is shorter -/

section Size

variable (st : Style) (depth depth' : Nat)

theorem bytes_writeItems {items : List Json}
    (h : ∀ x ∈ items, bytes (write (.compact st.esc) depth x) ≤ bytes (write st depth' x)) :
    bytes (writeItems (.compact st.esc) depth items) ≤ bytes (writeItems st depth' items) := by
  induction items with
  | nil => exact le_rfl
  | cons item items ih =>
    have first := h item List.mem_cons_self
    have rest := ih fun x mem => h x (List.mem_cons_of_mem item mem)
    simp only [writeItems, Style.compact, bytes_cons, bytes_append, bytes_nil] at *
    omega

theorem bytes_writeMembers {members : List (String × Json)}
    (h : ∀ m ∈ members, bytes (write (.compact st.esc) depth m.2) ≤ bytes (write st depth' m.2)) :
    bytes (writeMembers (.compact st.esc) depth members) ≤ bytes (writeMembers st depth' members) := by
  induction members with
  | nil => exact le_rfl
  | cons m members ih =>
    have first := h m List.mem_cons_self
    have rest := ih fun x mem => h x (List.mem_cons_of_mem m mem)
    simp only [writeMembers, Style.compact, Style.name, bytes_cons, bytes_append, bytes_nil] at *
    omega

/-- The compact form is the shortest. -/
theorem bytes_compact (v : Json) : bytes (write (.compact st.esc) depth v) ≤ bytes (write st depth' v) := by
  induction v using Json.ind generalizing depth depth' with
  | null | num | str => exact le_rfl
  | bool b => cases b <;> exact le_rfl
  | arr items ih =>
    cases items with
    | nil => exact le_rfl
    | cons item items =>
      have first := ih item List.mem_cons_self (depth + 1) (depth' + 1)
      have rest := bytes_writeItems st (depth + 1) (depth' + 1) fun x mem => ih x (List.mem_cons_of_mem item mem) _ _
      simp only [write, Style.compact, bytes_cons, bytes_append, bytes_nil] at *
      omega
  | obj members ih =>
    cases members with
    | nil => exact le_rfl
    | cons m members =>
      have first := ih m List.mem_cons_self (depth + 1) (depth' + 1)
      have rest := bytes_writeMembers st (depth + 1) (depth' + 1) fun x mem => ih x (List.mem_cons_of_mem m mem) _ _
      simp only [write, Style.compact, Style.name, bytes_cons, bytes_append, bytes_nil] at *
      omega

end Size

theorem marshal_size (v : Json) : (marshal v).utf8ByteSize ≤ (marshalIndent v).utf8ByteSize := by
  rw [← bytes_toList, ← bytes_toList, marshal, marshalIndent, String.toList_ofList, String.toList_ofList]
  exact bytes_compact .indent 0 0 v

example : marshalIndent (.obj [("a", .arr [.str "<b>", .arr []])]) =
    "\x7b\n  \"a\": [\n    \"\\u003cb\\u003e\",\n    []\n  ]\n\x7d" := by decide +kernel

/-! ## How long a text is -/

theorem bytes_htmlChar (c : Char) : bytes (htmlChar c) ≤ 6 * c.utf8Size := by
  have some_ := c.utf8Size_pos
  have ascii : ∀ n < 16, (hexDigit n).utf8Size = 1 := by decide
  have six : bytes (htmlChar c) ≤ 6 := by
    rw [htmlChar]
    split
    · next mark =>
      have low : c.toNat < 0x100 := by
        obtain rfl | rfl | rfl := mark <;> decide
      have heads : ('\\'.utf8Size = 1 ∧ 'u'.utf8Size = 1) ∧ '0'.utf8Size = 1 := by decide
      simp only [bytes_cons, bytes_nil, heads, ascii (c.toNat / 16) (by omega), ascii (c.toNat % 16) (by omega)]
      omega
    split
    · decide
    split
    · decide
    · exact bytes_escapeChar c
  omega

theorem bytes_quote_html (s : String) : bytes (quote .html s) ≤ 6 * s.utf8ByteSize + 2 := by
  have chars : ∀ cs : List Char, bytes (cs.flatMap htmlChar) ≤ 6 * bytes cs := by
    intro cs
    induction cs with
    | nil => exact le_rfl
    | cons c cs ih =>
      have first := bytes_htmlChar c
      rw [List.flatMap_cons, bytes_append, bytes_cons]
      omega
  have inner : bytes (s.toList.flatMap Escaping.html.write) ≤ 6 * bytes s.toList := chars s.toList
  have mark : '"'.utf8Size = 1 := by decide
  rw [bytes_toList] at inner
  simp only [quote, bytes_cons, bytes_append, bytes_nil, mark]
  omega

def marshalSize (v : Json) : Nat := bytes (write (.compact .html) 0 v)

theorem marshal_bytes (v : Json) : (marshal v).utf8ByteSize = marshalSize v := by
  rw [← bytes_toList, marshal, String.toList_ofList, marshalSize]

theorem bytes_depth (depth : Nat) (v : Json) : bytes (write (.compact .html) depth v) ≤ marshalSize v :=
  bytes_compact (.compact .html) depth 0 v

theorem gap_compact (depth : Nat) : (Style.compact .html).gap depth = [] := rfl

def memberSize (m : String × Json) : Nat := bytes (quote .html m.1) + marshalSize m.2 + 2

/-- An object is its members and the two brackets. -/
theorem size_object (members : List (String × Json)) :
    marshalSize (.obj members) ≤ 2 + (members.map memberSize).sum := by
  have marks : (','.utf8Size = 1 ∧ ':'.utf8Size = 1) ∧ '\x7b'.utf8Size = 1 ∧ '\x7d'.utf8Size = 1 := by decide
  have name (key : String) : bytes ((Style.compact .html).name key) = bytes (quote .html key) + 1 := by
    simp [Style.name, Style.compact, marks]
  have rest : ∀ members, bytes (writeMembers (.compact .html) 1 members) ≤ (members.map memberSize).sum := by
    intro members
    induction members with
    | nil => exact le_rfl
    | cons m members ih =>
      have first := bytes_depth 1 m.2
      simp only [writeMembers, gap_compact, List.nil_append, name, memberSize, bytes_cons, bytes_append,
        List.map_cons, List.sum_cons, marks]
      omega
  cases members with
  | nil => decide
  | cons m members =>
    have first := bytes_depth 1 m.2
    have left := rest members
    rw [marshalSize, write]
    simp only [gap_compact, List.nil_append, Nat.zero_add, name, memberSize, bytes_cons, bytes_append, bytes_nil,
      List.map_cons, List.sum_cons, marks]
    omega

theorem size_str (s : String) : marshalSize (.str s) ≤ 6 * s.utf8ByteSize + 2 := bytes_quote_html s

end Agentnet.Canonical
