import Agentnet.Canonical.Grammar

/-! Which documents `ParseStrict` accepts: those without a lone surrogate and without a name that occurs twice. -/

namespace Agentnet.Canonical

open Lib

variable {s : List Piece} {p : Piece} {v : Nat} {rest text digits : List Char}

/-! ## The scanner -/

def Rejects (inString : Bool) (text : List Char) : Prop :=
  ∀ n pos rest, (text ++ rest).length ≤ n →
  ∃ at_, checkSurrogates n pos inString (text ++ rest) = .error (.loneSurrogate at_)

/-- A lone surrogate is not mended by what follows. -/
theorem Rejects.append {a : Bool} (h : Rejects a text) (text' : List Char) : Rejects a (text ++ text') := by
  intro n pos rest enough
  rw [List.append_assoc] at enough ⊢
  exact h n pos _ enough

variable {text' digits' : List Char} {ts : List (List Piece)} {d : Doc} {k : Kind} {data : String}

/-- Nor by what comes before it. -/
theorem Passes.rejects {a b : Bool} (h : Passes a text b) (h' : Rejects b text') : Rejects a (text ++ text') := by
  intro n pos rest enough
  rw [List.append_assoc] at enough ⊢
  obtain ⟨n', pos', enough', same⟩ := h n pos _ enough
  rw [same]
  exact h' n' pos' rest enough'

theorem passes_piece (ok : p.Ok) (high : p.high = false) (low : p.low = false) : Passes true p.text true := by
  intro n pos rest enough
  obtain ⟨n, rfl⟩ : ∃ m, n = m + 1 := by
    obtain ⟨c, cs, text, -⟩ := text_head ok
    exact Nat.exists_eq_succ_of_ne_zero (by rintro rfl; simp [text] at enough)
  cases p with
  | plain c =>
    exact ⟨n, pos + c.utf8Size,
      by simpa [Piece.text] using enough, by simp [Piece.text, checkSurrogates, ok.1, ok.2.1]⟩
  | short d c =>
    refine ⟨n, pos + 1 + d.utf8Size, by simp [Piece.text] at enough; omega, ?_⟩
    simp [Piece.text, checkSurrogates, (lexEscape_short ok []).1]
  | unit v ds =>
    obtain ⟨read, four⟩ := hex4_append ok rest
    have high : isHigh v = false := high
    have low : isLow v = false := low
    refine ⟨n, pos + 6, by simp [Piece.text, four] at enough; omega, ?_⟩
    simp [Piece.text, checkSurrogates, read, high, low]

theorem passes_pair {lo : Nat} (ok : (Piece.unit v digits).Ok) (ok' : (Piece.unit lo digits').Ok)
    (high : isHigh v = true) (low : isLow lo = true) :
    Passes true ((Piece.unit v digits).text ++ (Piece.unit lo digits').text) true := by
  intro n pos rest enough
  obtain ⟨read, four⟩ := hex4_append ok ((Piece.unit lo digits').text ++ rest)
  obtain ⟨read', four'⟩ := hex4_append ok' rest
  obtain ⟨n, rfl⟩ : ∃ m, n = m + 1 := Nat.exists_eq_succ_of_ne_zero (by rintro rfl; simp [Piece.text] at enough)
  have other : isLow v = false := by simp_all [isHigh, isLow]; omega
  refine ⟨n, pos + 12, by simp [Piece.text, four, four'] at enough; omega, ?_⟩
  simp only [Piece.text, List.cons_append, List.append_assoc] at read ⊢
  simp [checkSurrogates, read, read', high, low, other]

theorem rejects_piece (ok : p.Ok) (lone : p.low = true ∨ p.high = true ∧ NoLow rest) {n : Nat}
    (enough : (p.text ++ rest).length ≤ n) (pos : Nat) :
    checkSurrogates n pos true (p.text ++ rest) = .error (.loneSurrogate pos) := by
  obtain ⟨n, rfl⟩ : ∃ m, n = m + 1 := by
    obtain ⟨c, cs, text, -⟩ := text_head ok
    exact Nat.exists_eq_succ_of_ne_zero (by rintro rfl; simp [text] at enough)
  cases p with
  | plain c | short d c => simp [Piece.low, Piece.high] at lone
  | unit v ds =>
    have read := (hex4_append ok rest).1
    cases low : isLow v with
    | true => simp [Piece.text, checkSurrogates, read, low]
    | false =>
      obtain ⟨high, noLow⟩ : isHigh v = true ∧ NoLow rest := by simpa [Piece.low, Piece.high, low] using lone
      simp only [Piece.text, List.cons_append, checkSurrogates, read, low, high]
      simp
      split
      · next digits =>
        split
        · next lo left read' => simp [noLow digits lo left rfl read']
        · rfl
      · rfl

theorem high_not_low (h : isHigh v = true) : isLow v = false := by
  simp_all [isHigh, isLow]
  omega

/-- Every high surrogate is followed by a low one, and no low one is alone. -/
def PairedAfter (high : Bool) (s : List Piece) : Prop :=
  s.head?.any Piece.low = high ∧ ∀ i, s[i]?.any Piece.high = s[i + 1]?.any Piece.low

theorem pairedAfter_cons {b : Bool} : PairedAfter b (p :: s) ↔ p.low = b ∧ PairedAfter p.high s := by
  refine and_congr (by simp) ⟨fun each => ⟨?_, fun i => ?_⟩, ?_⟩
  · simpa [List.head?_eq_getElem?] using (each 0).symm
  · simpa using each (i + 1)
  · rintro ⟨first, others⟩ (_ | i)
    · simpa [List.head?_eq_getElem?] using first.symm
    · simpa using others i

theorem pairedAfter_pair {lo : Nat} (high : isHigh v = true) (low : isLow lo = true) :
    PairedAfter false (.unit v digits :: .unit lo digits' :: s) ↔ PairedAfter false s := by
  have none_ : isHigh lo = false := by simp_all [isHigh, isLow]; omega
  simp [pairedAfter_cons, Piece.low, Piece.high, high, low, high_not_low high, none_]

theorem pairedAfter_single (alone : p.high = true → s.head?.any Piece.low = false) :
    PairedAfter false (p :: s) ↔ p.low = false ∧ p.high = false ∧ PairedAfter false s := by
  rw [pairedAfter_cons]
  cases high : p.high with
  | false => simp
  | true => simp [PairedAfter, alone high]

theorem scan_spell (ok : ∀ p ∈ s, p.Ok) :
    (PairedAfter false s → Passes true (spell s) true) ∧
    (¬PairedAfter false s → Rejects true (spell s ++ ['"'])) := by
  induction s using pieces_ind with
  | nil => exact ⟨fun _ => .nil true, fun no => absurd ⟨rfl, fun _ => rfl⟩ no⟩
  | pair v ds lo ds' s high low ih =>
    obtain ⟨first, second, others⟩ : _ ∧ _ ∧ ∀ p ∈ s, p.Ok := by simpa only [List.forall_mem_cons] using ok
    obtain ⟨passes, rejects⟩ := ih others
    have both := passes_pair first second high low
    rw [pairedAfter_pair high low, spell, List.flatMap_cons, List.flatMap_cons, ← List.append_assoc,
      List.append_assoc _ _ ['"']]
    exact ⟨fun paired => both.append (passes paired), fun no => both.rejects (rejects no)⟩
  | single p s alone ih =>
    obtain ⟨first, others⟩ := List.forall_mem_cons.mp ok
    obtain ⟨passes, rejects⟩ := ih others
    rw [pairedAfter_single alone, spell, List.flatMap_cons, List.append_assoc]
    by_cases lone : p.low = true ∨ p.high = true
    · refine ⟨fun paired => ?_, fun _ n pos rest enough => ⟨pos, ?_⟩⟩
      · simp [paired.1, paired.2.1] at lone
      · simp only [List.append_assoc, List.singleton_append] at enough ⊢
        exact rejects_piece first (lone.imp_right fun high => ⟨high, noLow_spell others (alone high) rest⟩) enough pos
    · obtain ⟨low, high⟩ : p.low = false ∧ p.high = false := by simpa [not_or] using lone
      have passed := passes_piece first high low
      simp only [low, high, true_and]
      exact ⟨fun paired => passed.append (passes paired), fun no => passed.rejects (rejects no)⟩

/-- The scanner leaves a text where a string may begin, and finds fault with the tokens in it only. -/
def Scans (text : List Char) (tokens : List (List Piece)) : Prop :=
  ((∀ s ∈ tokens, Paired s) → Passes false text false) ∧ (¬(∀ s ∈ tokens, Paired s) → Rejects false text)

/-- Tokens of two texts in turn. -/
theorem Scans.append {ts' : List (List Piece)} (h : Scans text ts) (h' : Scans text' ts') :
    Scans (text ++ text') (ts ++ ts') := by
  rw [Scans, List.forall_mem_append]
  refine ⟨fun all => (h.1 all.1).append (h'.1 all.2), fun no => ?_⟩
  by_cases first : ∀ s ∈ ts, Paired s
  · exact (h.1 first).rejects (h'.2 fun all => no ⟨first, all⟩)
  · exact (h.2 first).append text'

theorem scans_outside (h : ∀ c ∈ text, c ≠ '"') : Scans text [] :=
  ⟨fun _ => .outside h, fun no => absurd (by simp) no⟩

theorem scans_mark {c : Char} (h : c ≠ '"') : Scans [c] [] := scans_outside (by simpa using h)

theorem scans_cons {c : Char} (h : c ≠ '"') (h' : Scans text ts) : Scans (c :: text) ts := (scans_mark h).append h'

theorem scans_space (h : Space text) : Scans text [] := by
  refine scans_outside fun c mem => ?_
  rintro rfl
  cases h _ mem

theorem scans_quoted (ok : ∀ p ∈ s, p.Ok) : Scans (quoted s) [s] := by
  have opened : Passes false ['"'] true := by
    rintro (_ | n) pos rest enough
    · exact absurd enough (by simp)
    · exact ⟨n, pos + '"'.utf8Size, by simpa using enough, rfl⟩
  have closed : Passes true ['"'] false := by
    rintro (_ | n) pos rest enough
    · exact absurd enough (by simp)
    · exact ⟨n, pos + 1, by simpa using enough, rfl⟩
  obtain ⟨passes, rejects⟩ := scan_spell ok
  rw [Scans, List.forall_mem_singleton]
  exact ⟨fun paired => opened.append ((passes paired).append closed), fun no => opened.rejects (rejects no)⟩

theorem Derives.scans (h : Derives k text d) : Scans text d.tokens := by
  induction h with
  | null | true_ | false_ => exact scans_outside (by simp)
  | num negative ok =>
    refine scans_outside fun c mem => ?_
    rintro rfl
    have digit : ∀ {ds}, Digits ds → '"' ∉ ds := fun ok mem => by cases ok.2 _ mem
    obtain ⟨⟨int, -⟩, fraction, exponent⟩ := ok
    rcases fraction with rfl | ⟨ds, fraction, rfl⟩ <;>
      rcases exponent with rfl | ⟨c, sign, ds', rfl | rfl, rfl | rfl | rfl, exponent, rfl⟩
    all_goals cases negative <;> simp_all
  | str ok => exact scans_quoted ok
  | noItems blank => exact scans_cons (by decide) ((scans_space blank).append (scans_outside (by simp)))
  | noMembers blank => exact scans_cons (by decide) ((scans_space blank).append (scans_outside (by simp)))
  | arr _ ih => simpa using scans_cons (by decide) (ih.append (scans_mark (c := ']') (by decide)))
  | obj _ ih => simpa using scans_cons (by decide) (ih.append (scans_mark (c := '\x7d') (by decide)))
  | space blank blank' _ ih => simpa using (scans_space blank).append (ih.append (scans_space blank'))
  | item _ ih => exact ih
  | items _ _ ih ih' => exact ih.append (scans_cons (by decide) ih')
  | member blank blank' ok _ ih =>
    exact (scans_space blank).append
      ((scans_quoted ok).append ((scans_space blank').append (scans_cons (by decide) ih)))
  | members blank blank' ok _ _ ih ih' =>
    exact (scans_space blank).append ((scans_quoted ok).append ((scans_space blank').append
      (scans_cons (by decide) (ih.append (scans_cons (by decide) ih')))))

/-! ## Documents -/

mutual

/-- The strings of a value in order, names included. -/
def strings : Json → List String
  | .str s => [s]
  | .arr items => stringsItems items
  | .obj members => stringsMembers members
  | _ => []

def stringsItems : List Json → List String
  | [] => []
  | item :: items => strings item ++ stringsItems items

def stringsMembers : List (String × Json) → List String
  | [] => []
  | (key, value) :: members => key :: (strings value ++ stringsMembers members)

end

/-- The strings of a value are its tokens, unescaped. -/
theorem Derives.strings (h : Derives k text d) :
    strings d.value = d.tokens.map fun s => String.ofList (unescape s) := by
  induction h with
  | arr _ ih | obj _ ih | space _ _ _ ih => exact ih
  | item _ ih => simpa [Canonical.strings, stringsItems] using ih
  | items _ _ ih ih' =>
    rw [Canonical.strings] at ih'
    simp only [Canonical.strings, stringsItems, ih, ih', List.map_append]
  | member _ _ _ _ ih => simpa [Canonical.strings, stringsMembers] using ih
  | members _ _ _ _ _ ih ih' =>
    rw [Canonical.strings] at ih'
    simp only [Canonical.strings, stringsMembers, ih, ih', List.map_append, List.map_cons]
  | _ => simp [Canonical.strings, stringsItems, stringsMembers]

theorem Derives.tokens_ok (h : Derives k text d) : ∀ s ∈ d.tokens, ∀ p ∈ s, p.Ok := by
  induction h with
  | str ok => simpa using ok
  | arr _ ih | obj _ ih | space _ _ _ ih | item _ ih => exact ih
  | items _ _ ih ih' => exact List.forall_mem_append.mpr ⟨ih, ih'⟩
  | member _ _ ok _ ih => exact List.forall_mem_cons.mpr ⟨ok, ih⟩
  | members _ _ ok _ _ ih ih' => exact List.forall_mem_cons.mpr ⟨ok, List.forall_mem_append.mpr ⟨ih, ih'⟩⟩
  | _ => simp

theorem ofNat_replacement (h : Char.ofNat v = replacement) : v = 0xFFFD := by
  by_cases valid : v.isValidChar
  · rw [Char.ofNat, dif_pos valid] at h
    exact congrArg Char.toNat h
  · rw [Char.ofNat, dif_neg valid] at h
    cases h

theorem replacement_spelled (ok : ∀ p ∈ s, p.Ok) (paired : PairedAfter false s) (mem : replacement ∈ unescape s) :
    .plain replacement ∈ s ∨ ∃ digits, .unit 0xFFFD digits ∈ s := by
  induction s using pieces_ind with
  | nil => cases mem
  | pair v ds lo ds' s high low ih =>
    rw [unescape, if_pos (by rw [high, low]; rfl), List.mem_cons] at mem
    rcases mem with same | mem
    · have := ofNat_replacement same.symm
      omega
    · have spelled := ih (fun p mem => ok p (by simp [mem])) ((pairedAfter_pair high low).mp paired) mem
      exact spelled.imp (by simp +contextual) (Exists.imp (by simp +contextual))
  | single p s alone ih =>
    obtain ⟨low, high, paired⟩ := (pairedAfter_single alone).mp paired
    rw [unescape_single alone, List.mem_cons] at mem
    rcases mem with same | mem
    · cases p with
      | plain c => exact .inl (by rw [same]; exact List.mem_cons_self)
      | short d c => exact absurd same.symm (lexEscape_short (ok _ List.mem_cons_self) []).2.2.2
      | unit v ds =>
        simp only [Piece.high, Piece.low] at high low
        rw [Piece.char, unitChar, high, low] at same
        exact .inr ⟨ds, ofNat_replacement same.symm ▸ List.mem_cons_self⟩
    · have spelled := ih (fun p mem => ok p (List.mem_cons_of_mem _ mem)) paired mem
      exact spelled.imp (List.mem_cons_of_mem _) (Exists.imp fun _ => List.mem_cons_of_mem _)

theorem checkSurrogates_derives (valid : Derives .value data.toList d) :
    checkSurrogates (data.length + 1) 0 false data.toList = .ok () ↔ ∀ s ∈ d.tokens, Paired s := by
  obtain ⟨passes, rejects⟩ := valid.scans
  have enough : (data.toList ++ []).length ≤ data.length + 1 := by simp [String.length_toList]
  constructor
  · intro checked
    by_contra no
    obtain ⟨at_, failed⟩ := rejects no _ 0 [] enough
    rw [List.append_nil, checked] at failed
    cases failed
  · intro all
    obtain ⟨n, pos, -, same⟩ := passes all _ 0 [] enough
    rw [List.append_nil] at same
    rw [same]
    cases n <;> rfl

theorem parseDocument_derives {data : List Char} (valid : Derives .value data d) :
    Outcome (d.distinct = true) (· = d.value) (parseDocument data) := by
  have value := valid.parses (data.length + 1) [] (Nat.le_succ _) stops_nil
  rw [List.append_nil] at value
  refine (value.bind True ?_).congr (and_true _).to_iff
  rintro ⟨v, left⟩ ⟨rfl, last⟩
  simp only [last]
  exact .done rfl

theorem parseStrict_derives (valid : Derives .value data.toList d) (paired : ∀ s ∈ d.tokens, Paired s)
    (distinct : d.distinct = true) : parseStrict data = .ok d.value := by
  obtain ⟨_, read, rfl⟩ := (parseDocument_derives valid).1 distinct
  rw [parseStrict, (checkSurrogates_derives valid).mpr paired, ok_bind, read]

theorem derives_accepted {v : Json} (valid : Derives .value data.toList d) (parsed : parseStrict data = .ok v) :
    (∀ s ∈ d.tokens, Paired s) ∧ d.distinct = true ∧ v = d.value := by
  obtain ⟨_, checked, parsed⟩ := bind_eq_ok.mp parsed
  obtain ⟨yes, no⟩ := parseDocument_derives valid
  have distinct : d.distinct = true := by
    by_contra twice
    obtain ⟨key, failed⟩ := no twice
    cases failed.symm.trans parsed
  obtain ⟨_, same, rfl⟩ := yes distinct
  exact ⟨(checkSurrogates_derives valid).mp checked, distinct, Except.ok.inj (parsed.symm.trans same)⟩

/-- Surrogates are checked exactly, a valid document is refused for a lone surrogate or a name that occurs twice and
for nothing else, and nothing is replaced. -/
theorem parseStrict_exact (data : String) (d : Doc) (valid : Derives .value data.toList d) :
    (checkSurrogates (data.length + 1) 0 false data.toList = .ok () ↔ ∀ s ∈ d.tokens, Paired s) ∧
    ((∃ v, parseStrict data = .ok v) ↔ (∀ s ∈ d.tokens, Paired s) ∧ d.distinct = true) ∧
    ∀ v, parseStrict data = .ok v → v = d.value ∧ strings v = (d.tokens.map fun s => String.ofList (unescape s)) ∧
      ∀ s ∈ d.tokens, replacement ∈ unescape s → .plain replacement ∈ s ∨ ∃ digits, .unit 0xFFFD digits ∈ s := by
  refine ⟨checkSurrogates_derives valid, ⟨?_, fun fine => ⟨_, parseStrict_derives valid fine.1 fine.2⟩⟩, ?_⟩
  · rintro ⟨v, parsed⟩
    obtain ⟨paired, distinct, -⟩ := derives_accepted valid parsed
    exact ⟨paired, distinct⟩
  · intro v parsed
    obtain ⟨paired, -, rfl⟩ := derives_accepted valid parsed
    exact ⟨rfl, valid.strings, fun s mem => replacement_spelled (valid.tokens_ok s mem) (paired s mem)⟩

theorem paired_document_accepted : ∃ v, parseStrict "\"\\ud83d\\ude00\"" = .ok v ∧ strings v = ["😀"] := by
  have ok : ∀ p ∈ [Piece.unit 0xD83D ['d', '8', '3', 'd'], .unit 0xDE00 ['d', 'e', '0', '0']], p.Ok := by
    simp only [List.forall_mem_cons]
    exact ⟨rfl, rfl, by simp⟩
  obtain ⟨-, accepted, exact_⟩ := parseStrict_exact "\"\\ud83d\\ude00\"" _ (.str ok)
  have paired : Paired [.unit 0xD83D ['d', '8', '3', 'd'], .unit 0xDE00 ['d', 'e', '0', '0']] := by
    refine ⟨rfl, fun i => ?_⟩
    rcases i with _ | _ | i <;> rfl
  obtain ⟨v, parsed⟩ := accepted.mpr ⟨by simpa using paired, rfl⟩
  exact ⟨v, parsed, (exact_ v parsed).2.1⟩

end Agentnet.Canonical
