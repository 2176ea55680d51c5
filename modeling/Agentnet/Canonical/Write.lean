import Agentnet.Canonical.Surrogates

/-! Writers of generic values, and that `ParseStrict` reads back what they write. -/

namespace Agentnet.Canonical

/-- How a writer spells the characters of strings, and the space it puts before items at a depth and
behind colons. -/
structure Style where
  esc : Escaping
  gap : Nat → List Char
  colon : List Char
  gap_space : ∀ depth, ∀ c ∈ gap depth, isSpace c = true
  colon_space : ∀ c ∈ colon, isSpace c = true

def Style.compact (esc : Escaping) : Style :=
  ⟨esc, fun _ => [], [], fun _ _ none_ => (nomatch none_), fun _ none_ => (nomatch none_)⟩

def literal : Number → List Char
  | .int i => (toString i).toList
  | .negZero => ['-', '0']
  | .other text => text.toList

/-- The name of a member and its colon. -/
def Style.name (st : Style) (key : String) : List Char := quote st.esc key ++ ':' :: st.colon

mutual

/-- A value as text, in the given style. -/
def write (st : Style) (depth : Nat) : Json → List Char
  | .null => ['n', 'u', 'l', 'l']
  | .bool true => ['t', 'r', 'u', 'e']
  | .bool false => ['f', 'a', 'l', 's', 'e']
  | .num n => literal n
  | .str s => quote st.esc s
  | .arr [] => ['[', ']']
  | .arr (item :: items) =>
    '[' :: (st.gap
      (depth + 1) ++ (write st (depth + 1) item ++ (writeItems st (depth + 1) items ++ (st.gap depth ++ [']']))))
  | .obj [] => ['\x7b', '\x7d']
  | .obj ((key, value) :: members) =>
    '\x7b' :: (st.gap (depth + 1) ++ (st.name key ++ (write st (depth + 1) value ++
      (writeMembers st (depth + 1) members ++ (st.gap depth ++ ['\x7d'])))))

def writeItems (st : Style) (depth : Nat) : List Json → List Char
  | [] => []
  | item :: items => ',' :: (st.gap depth ++ (write st depth item ++ writeItems st depth items))

def writeMembers (st : Style) (depth : Nat) : List (String × Json) → List Char
  | [] => []
  | (key, value) :: members =>
    ',' :: (st.gap depth ++ (st.name key ++ (write st depth value ++ writeMembers st depth members)))

end

/-! ## Values that can be read back -/

mutual

/-- Numbers are canonical integers in range, and names are distinct. -/
def Generic : Json → Prop
  | .num (.int i) => -maxSafeInt < i ∧ i < maxSafeInt
  | .num _ => False
  | .arr items => GenericItems items
  | .obj members => (members.map Prod.fst).Nodup ∧ GenericMembers members
  | _ => True

def GenericItems : List Json → Prop
  | [] => True
  | item :: items => Generic item ∧ GenericItems items

def GenericMembers : List (String × Json) → Prop
  | [] => True
  | (_, value) :: members => Generic value ∧ GenericMembers members

end

/-! ## Reading back -/

theorem genericItems_iff {items : List Json} : GenericItems items ↔ ∀ item ∈ items, Generic item := by
  induction items with
  | nil => exact ⟨fun _ _ none_ => (by cases none_), fun _ => trivial⟩
  | cons item items ih => rw [GenericItems, ih, List.forall_mem_cons]

/-- Members are without floats when each value is. -/
theorem genericMembers_iff {members : List (String × Json)} :
    GenericMembers members ↔ ∀ m ∈ members, Generic m.2 := by
  induction members with
  | nil => exact ⟨fun _ _ none_ => (by cases none_), fun _ => trivial⟩
  | cons m members ih => rw [GenericMembers, ih, List.forall_mem_cons]

theorem space_nil : Space [] := by simp [Space]

/-- The text is one of the grammar with nothing in it to refuse. -/
def Spelled (k : Kind) (text : List Char) (v : Json) : Prop :=
  ∃ ts, (∀ s ∈ ts, Paired s) ∧ Derives k text ⟨v, ts, true⟩

theorem Written.piece {c : Char} {text : List Char} (h : Written c text) :
    ∃ p : Piece, p.Ok ∧ p.high = false ∧ p.low = false ∧ p.text = text ∧ p.char = c := by
  cases h with
  | plain quote escape control => exact ⟨.plain c, ⟨quote, escape, control⟩, rfl, rfl, rfl, rfl⟩
  | short d other read =>
    refine ⟨.short d c, ?_, rfl, rfl, rfl, rfl⟩
    have known := read []
    unfold lexEscape at known
    split at known <;> simp_all [Piece.Ok, Piece.shortEscapes] <;> exact known.symm
  | unit w x y z read =>
    obtain ⟨high, low⟩ := scalar_not_surrogate c
    refine ⟨.unit c.toNat [w, x, y, z], read [], high, low, rfl, ?_⟩
    simp [Piece.char, unitChar, high, low, Char.ofNat_toNat]

theorem exists_pieces (esc : Escaping) (cs : List Char) :
    ∃ s, (∀ p ∈ s, p.Ok) ∧ PairedAfter false s ∧ spell s = cs.flatMap esc.write ∧ unescape s = cs := by
  induction cs with
  | nil => exact ⟨[], by simp, ⟨rfl, fun _ => rfl⟩, rfl, rfl⟩
  | cons c cs ih =>
    obtain ⟨s, ok, paired, text, value⟩ := ih
    obtain ⟨p, first, high, low, rest⟩ := (esc.written c).piece
    have alone : p.high = true → s.head?.any Piece.low = false := fun h => by cases high.symm.trans h
    refine ⟨p :: s, List.forall_mem_cons.mpr ⟨first, ok⟩, (pairedAfter_single alone).mpr ⟨low, high, paired⟩, ?_, ?_⟩
    · simp only [spell, List.flatMap_cons, rest.1] at text ⊢
      rw [text]
    · rw [unescape_single alone, rest.2, value]

theorem exists_quoted (esc : Escaping) (s : String) :
    ∃ ps, (∀ p ∈ ps, p.Ok) ∧ Paired ps ∧ quoted ps = quote esc s ∧ String.ofList (unescape ps) = s := by
  obtain ⟨ps, ok, paired, text, value⟩ := exists_pieces esc s.toList
  exact ⟨ps, ok, paired, by rw [quoted, text, quote], by rw [value, String.ofList_toList]⟩

theorem spelled_int (i : Int) : Spelled .value (toString i).toList (.num (.int i)) := by
  have digits : ∀ n : Nat, IsNumber (Nat.toDigits 10 n) [] [] := by
    refine fun n => ⟨⟨⟨Nat.toDigits_ne_nil, fun c mem => Nat.isDigit_of_mem_toDigits (by decide) le_rfl mem⟩,
      fun first => ?_⟩, .inl rfl, .inl rfl⟩
    by_cases zero : n = 0
    · rw [zero]
      rfl
    · obtain ⟨c, cs, text, other⟩ := toDigits_head zero
      rw [text] at first
      exact absurd (Option.some.inj first) other
  have value : ∀ n, Nat.ofDigitChars 10 (Nat.toDigits 10 n) 0 = n := fun n => Nat.ofDigitChars_ten_toDigits
  refine ⟨[], by simp, ?_⟩
  rw [toList_int]
  cases i with
  | ofNat n => simpa [number, value n] using Derives.num false (digits n)
  | negSucc n =>
    have nonzero : Nat.toDigits 10 (n + 1) ≠ ['0'] := by
      intro zero
      cases zero ▸ value (n + 1)
    simpa [number, value (n + 1), nonzero, Int.negSucc_eq] using Derives.num true (digits (n + 1))

variable (st : Style)

theorem spelled_items (depth outer : Nat) (item : Json) (items : List Json)
    (each : ∀ x ∈ item :: items, Spelled .value (write st depth x) x) :
    Spelled .items (st.gap depth ++ (write st depth item ++ (writeItems st depth items ++ st.gap outer)))
      (.arr (item :: items)) := by
  induction items generalizing item with
  | nil =>
    obtain ⟨ts, paired, first⟩ := each item List.mem_cons_self
    exact ⟨ts, paired, (Derives.space (st.gap_space depth) (st.gap_space outer) first).item⟩
  | cons next items ih =>
    obtain ⟨⟨ts, paired, first⟩, others⟩ := List.forall_mem_cons.mp each
    obtain ⟨ts', paired', rest⟩ := ih next others
    refine ⟨ts ++ ts', List.forall_mem_append.mpr ⟨paired, paired'⟩, ?_⟩
    simpa [writeItems] using (Derives.space (st.gap_space depth) space_nil first).items rest

theorem spelled_members (depth outer : Nat) (m : String × Json) (members : List (String × Json))
    (distinct : ((m :: members).map Prod.fst).Nodup)
    (each : ∀ x ∈ m :: members, Spelled .value (write st depth x.2) x.2) :
    Spelled .members
      (st.gap depth ++ (st.name m.1 ++ (write st depth m.2 ++ (writeMembers st depth members ++ st.gap outer))))
      (.obj (m :: members)) := by
  obtain ⟨key, ok, fine, text, name⟩ := exists_quoted st.esc m.1
  induction members generalizing m key with
  | nil =>
    obtain ⟨ts, paired, first⟩ := each m List.mem_cons_self
    refine ⟨key :: ts, List.forall_mem_cons.mpr ⟨fine, paired⟩, ?_⟩
    have derived := (Derives.space st.colon_space (st.gap_space outer) first).member (st.gap_space depth) space_nil ok
    rw [name, text] at derived
    simpa [Style.name, writeMembers] using derived
  | cons next members ih =>
    obtain ⟨⟨ts, paired, first⟩, others⟩ := List.forall_mem_cons.mp each
    obtain ⟨fresh, distinct⟩ := List.nodup_cons.mp distinct
    obtain ⟨key', ok', fine', text', name'⟩ := exists_quoted st.esc next.1
    obtain ⟨ts', paired', rest⟩ := ih next distinct others key' ok' fine' text' name'
    refine ⟨key :: (ts ++ ts'), List.forall_mem_cons.mpr ⟨fine, List.forall_mem_append.mpr ⟨paired, paired'⟩⟩, ?_⟩
    have derived := (Derives.space st.colon_space space_nil first).members (st.gap_space depth) space_nil ok rest
    rw [name, text] at derived
    have fresh : m.1 ∉ next.1 :: members.map Prod.fst := fresh
    simpa [Style.name, writeMembers, fresh] using derived

/-- What `write` writes spells the value, in every style. -/
theorem spelled_write (v : Json) (g : Generic v) (depth : Nat) : Spelled .value (write st depth v) v := by
  induction v using Json.ind generalizing depth with
  | null => exact ⟨[], by simp, .null⟩
  | bool b =>
    cases b with
    | true => exact ⟨[], by simp, .true_⟩
    | false => exact ⟨[], by simp, .false_⟩
  | num number =>
    cases number with
    | int i => exact spelled_int i
    | negZero | other => exact g.elim
  | str s =>
    obtain ⟨key, ok, fine, text, name⟩ := exists_quoted st.esc s
    refine ⟨[key], by simpa using fine, ?_⟩
    simpa [write, text, name] using Derives.str ok
  | arr items ih =>
    have parts := genericItems_iff.mp g
    cases items with
    | nil => exact ⟨[], by simp, .noItems space_nil⟩
    | cons item items =>
      obtain ⟨ts, paired, inside⟩ :=
        spelled_items st (depth + 1) depth item items fun x mem => ih x mem (parts x mem) _
      exact ⟨ts, paired, by simpa [write] using inside.arr⟩
  | obj members ih =>
    have parts := genericMembers_iff.mp g.2
    cases members with
    | nil => exact ⟨[], by simp, .noMembers space_nil⟩
    | cons m members =>
      obtain ⟨ts, paired, inside⟩ :=
        spelled_members st (depth + 1) depth m members g.1 fun x mem => ih x mem (parts x mem) _
      exact ⟨ts, paired, by simpa [write] using inside.obj⟩

theorem parseStrict_write (v : Json) (g : Generic v) : parseStrict (String.ofList (write st 0 v)) = .ok v := by
  obtain ⟨ts, paired, derived⟩ := spelled_write st v g 0
  exact parseStrict_derives (by rwa [String.toList_ofList]) paired rfl

end Agentnet.Canonical
