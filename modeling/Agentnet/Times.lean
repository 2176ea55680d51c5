import Mathlib.Data.Char
import Mathlib.Data.List.Lex
import Mathlib.Tactic.NormNum
import Agentnet.Basic
import Agentnet.Lib.Civil

/-! Wire times are read from their texts: `time.Parse` with the layout of whole seconds, and the text
must be the one that the time is written as. -/

namespace Agentnet

open Lib.Civil

def InYears (w : Int) : Prop := -62167219200 ≤ w ∧ w < 253402300800

instance (w : Int) : Decidable (InYears w) := inferInstanceAs (Decidable (_ ∧ _))

def clockText (n : Nat) : String :=
  padDigits 2 (n / 3600) ++ ":" ++ padDigits 2 (n % 3600 / 60) ++ ":" ++ padDigits 2 (n % 60)

def dateText (d : Date) : String :=
  yearText d.year ++ "-" ++ padDigits 2 d.month.toNat ++ "-" ++ padDigits 2 d.day.toNat

theorem wireTimeText_eq (w : WireTime) :
    wireTimeText w = dateText (ofDays (w / 86400)) ++ "T" ++ clockText (w % 86400).toNat ++ "Z" := by
  simp only [wireTimeText, dateText, clockText, String.append_assoc]
  rfl

/-- Decimal digits as a number. -/
def digits (cs : List Char) : Nat := Nat.ofDigitChars 10 cs 0

/-- The number of `n` digits from place `i` on. -/
def digitsAt (cs : List Char) (i n : Nat) : Nat := digits ((cs.drop i).take n)

/-- The time at the places of the layout. What stands there need not be digits, nor a date. -/
def readTime (s : String) : Int :=
  let cs := s.toList
  let date : Date := ⟨digitsAt cs 0 4, digitsAt cs 5 2, digitsAt cs 8 2⟩
  date.toDays * 86400 + (digitsAt cs 11 2 * 3600 + digitsAt cs 14 2 * 60 + digitsAt cs 17 2 : Nat)

/-- The source parses, which only reads dates of those years, formats the time and compares the texts. -/
def parseTime (s : String) : Option WireTime :=
  if InYears (readTime s) ∧ wireTimeText (readTime s) = s then some (readTime s) else none

theorem parseTime_eq_some {s : String} {w : WireTime} (h : parseTime s = some w) :
    InYears w ∧ wireTimeText w = s := by
  rw [parseTime] at h
  split at h
  · next same => exact Option.some.inj h ▸ same
  · cases h

theorem toList_padDigits (width n : Nat) :
    (padDigits width n).toList = List.replicate (width - (Nat.toDigits 10 n).length) '0' ++ Nat.toDigits 10 n := by
  rw [padDigits, Nat.toString_eq_ofList_toDigits, String.toList_append, String.toList_ofList,
    String.length_ofList, toList_pushn]

theorem digits_padDigits (width n : Nat) : digits (padDigits width n).toList = n := by
  have zeros : ∀ k, Nat.ofDigitChars 10 (List.replicate k '0') 0 = 0 := by
    intro k
    induction k with
    | zero => rfl
    | succ k ih => exact ih
  rw [digits, toList_padDigits, Nat.ofDigitChars_append, zeros, Nat.ofDigitChars_ten_toDigits]

theorem length_padDigits {width n : Nat} (some_ : 0 < width) (h : n < 10 ^ width) :
    (padDigits width n).toList.length = width := by
  have most := (Nat.length_toDigits_le_iff (by decide : 1 < 10) some_).mpr h
  rw [toList_padDigits, List.length_append, List.length_replicate]
  omega

theorem two_digits {n : Nat} (h : n < 100) : ∃ a b, (padDigits 2 n).toList = [a, b] ∧ digits [a, b] = n := by
  obtain ⟨a, b, e⟩ := List.length_eq_two.mp (length_padDigits (by decide : 0 < 2) h)
  exact ⟨a, b, e, e ▸ digits_padDigits 2 n⟩

theorem four_digits {n : Nat} (h : n < 10000) :
    ∃ a b c d, (padDigits 4 n).toList = [a, b, c, d] ∧ digits [a, b, c, d] = n := by
  have size := length_padDigits (by decide : 0 < 4) h
  have value := digits_padDigits 4 n
  match e : (padDigits 4 n).toList, size with
  | [a, b, c, d], _ => exact ⟨a, b, c, d, rfl, e ▸ value⟩

theorem yearText_eq {y : Int} (h : 0 ≤ y) : yearText y = padDigits 4 y.toNat := if_neg (not_lt.mpr h)

theorem readTime_date (d : Date) (clock : Nat) (year : 0 ≤ d.year ∧ d.year ≤ 9999)
    (month : 0 ≤ d.month ∧ d.month ≤ 99) (day : 0 ≤ d.day ∧ d.day ≤ 99) (clock_ : clock < 86400) :
    readTime (dateText d ++ "T" ++ clockText clock ++ "Z") = d.toDays * 86400 + clock := by
  obtain ⟨y₁, y₂, y₃, y₄, yText, y⟩ := four_digits (n := d.year.toNat) (by omega)
  obtain ⟨m₁, m₂, mText, m⟩ := two_digits (n := d.month.toNat) (by omega)
  obtain ⟨d₁, d₂, dText, day'⟩ := two_digits (n := d.day.toNat) (by omega)
  obtain ⟨h₁, h₂, hText, hours⟩ := two_digits (n := clock / 3600) (by omega)
  obtain ⟨n₁, n₂, nText, minutes⟩ := two_digits (n := clock % 3600 / 60) (by omega)
  obtain ⟨s₁, s₂, sText, seconds⟩ := two_digits (n := clock % 60) (by omega)
  have text : (dateText d ++ "T" ++ clockText clock ++ "Z").toList =
      [y₁, y₂, y₃, y₄, '-', m₁, m₂, '-', d₁, d₂, 'T', h₁, h₂, ':', n₁, n₂, ':', s₁, s₂, 'Z'] := by
    have marks : "-".toList = ['-'] ∧ "T".toList = ['T'] ∧ ":".toList = [':'] ∧ "Z".toList = ['Z'] :=
      ⟨rfl, rfl, rfl, rfl⟩
    simp only [dateText, clockText, yearText_eq year.1, String.toList_append, yText, mText, dText, hText,
      nText, sText, marks, List.cons_append, List.nil_append]
  have date : (⟨(d.year.toNat : Nat), (d.month.toNat : Nat), (d.day.toNat : Nat)⟩ : Date) = d := by
    rw [Int.toNat_of_nonneg year.1, Int.toNat_of_nonneg month.1, Int.toNat_of_nonneg day.1]
  simp only [readTime, text, digitsAt, List.drop_succ_cons, List.drop_zero, List.take_succ_cons,
    List.take_zero, y, m, day', hours, minutes, seconds, date]
  omega

/-- They are a range of seconds. -/
theorem inYears_iff (w : Int) : InYears w ↔ 0 ≤ (ofDays (w / 86400)).year ∧ (ofDays (w / 86400)).year ≤ 9999 := by
  rw [ofDays_year, InYears]
  omega

theorem readTime_text {w : Int} (h : InYears w) : readTime (wireTimeText w) = w := by
  have month := ofDays_month (w / 86400)
  have day := ofDays_day (w / 86400)
  rw [wireTimeText_eq, readTime_date _ _ ((inYears_iff w).mp h) (by omega) (by omega) (by omega), toDays_ofDays]
  omega

theorem parseTime_text {w : Int} (h : InYears w) : parseTime (wireTimeText w) = some w := by
  rw [parseTime, readTime_text h, if_pos ⟨h, rfl⟩]

theorem length_wireTimeText (w : Int) :
    (wireTimeText w).toList.length = (yearText (ofDays (w / 86400)).year).toList.length + 16 := by
  have month := ofDays_month (w / 86400)
  have day := ofDays_day (w / 86400)
  have clock : (w % 86400).toNat < 86400 := by omega
  have two : ∀ n, n < 100 → (padDigits 2 n).toList.length = 2 := fun n h => length_padDigits (by decide) h
  have marks : "-".toList.length = 1 ∧ "T".toList.length = 1 ∧ ":".toList.length = 1 ∧ "Z".toList.length = 1 :=
    ⟨rfl, rfl, rfl, rfl⟩
  simp only [wireTimeText_eq, dateText, clockText, String.toList_append, List.length_append, marks]
  rw [two _ (by omega), two _ (by omega), two _ (by omega), two _ (by omega), two _ (by omega)]

/-- The years that RFC 3339 can write. -/
theorem length_yearText {y : Int} : (yearText y).toList.length = 4 ↔ 0 ≤ y ∧ y ≤ 9999 := by
  have width : ∀ n, (padDigits 4 n).toList.length = 4 ↔ n < 10000 := by
    intro n
    constructor
    · intro four
      have most : (Nat.toDigits 10 n).length ≤ 4 := by
        rw [toList_padDigits, List.length_append] at four
        omega
      exact (Nat.length_toDigits_le_iff (by decide : 1 < 10) (by decide)).mp most
    · exact fun small => length_padDigits (by decide : 0 < 4) small
  rw [yearText]
  split
  · next negative =>
    have least : 4 ≤ (padDigits 4 (-y).toNat).toList.length := by
      rw [toList_padDigits, List.length_append, List.length_replicate]
      omega
    rw [String.toList_append, List.length_append, show "-".toList.length = 1 from rfl]
    omega
  · rw [width]
    omega

theorem parseTime_wireTimeText {w w' : Int} (h : parseTime (wireTimeText w) = some w') : InYears w ∧ w' = w := by
  obtain ⟨years, same⟩ := parseTime_eq_some h
  have size := congrArg (fun t => t.toList.length) same
  simp only [length_wireTimeText, length_yearText.mpr ((inYears_iff w').mp years)] at size
  have inside : InYears w := (inYears_iff w).mpr (length_yearText.mp (by omega))
  refine ⟨inside, ?_⟩
  rw [← readTime_text years, same, readTime_text inside]

/-! ## The order of the texts -/

/-- Numbers of as many digits are in the order of their texts. -/
theorem ofDigitChars_lt {cs ds : List Char} {i j : Nat} (all : ∀ c ∈ cs, c.isDigit = true)
    (all' : ∀ d ∈ ds, d.isDigit = true) (same : cs.length = ds.length)
    (less : Nat.ofDigitChars 10 cs i < Nat.ofDigitChars 10 ds j) : i < j ∨ (i = j ∧ cs < ds) := by
  induction cs generalizing ds i j with
  | nil =>
    obtain rfl := List.length_eq_zero_iff.mp same.symm
    exact .inl less
  | cons c cs ih =>
    match ds, same with
    | d :: ds, same =>
      have hc := Char.isDigit_iff_toNat.mp (all c (List.mem_cons_self ..))
      have hd := Char.isDigit_iff_toNat.mp (all' d (List.mem_cons_self ..))
      rw [Nat.ofDigitChars_cons, Nat.ofDigitChars_cons, show '0'.toNat = 48 from rfl] at less
      have rest :=
        ih (fun c mem => all c (List.mem_cons_of_mem _ mem)) (fun d mem => all' d (List.mem_cons_of_mem _ mem))
        (Nat.succ.inj same) less
      rw [List.cons_lt_cons_iff, Char.lt_def, UInt32.lt_iff_toNat_lt]
      change _ ∨ (_ ∧ (c.toNat < d.toNat ∨ _))
      have same_ : c.toNat = d.toNat → c = d := fun h => Char.toNat_inj.mp h
      grind

theorem padDigits_isDigit {width n : Nat} : ∀ c ∈ (padDigits width n).toList, c.isDigit = true := by
  intro c mem
  rw [toList_padDigits, List.mem_append] at mem
  obtain zero | digit := mem
  · rw [List.eq_of_mem_replicate zero]
    rfl
  · exact Nat.isDigit_of_mem_toDigits (by decide) (by decide) digit

theorem append_lt_append {u u' v v' : List Char} (same : u.length = u'.length) (less : u < u') :
    u ++ v < u' ++ v' := by
  induction u generalizing u' with
  | nil =>
    obtain rfl := List.length_eq_zero_iff.mp same.symm
    exact absurd less (by simp)
  | cons c u ih =>
    match u', same with
    | c' :: u', same =>
      rw [List.cons_append, List.cons_append, List.cons_lt_cons_iff]
      exact (List.cons_lt_cons_iff.mp less).imp_right fun h => ⟨h.1, ih (Nat.succ.inj same) h.2⟩

/-- Texts that begin with a number of `width` digits. -/
theorem padDigits_append_not_lt {width a b : Nat} (some_ : 0 < width) (ha : a < 10 ^ width)
    (hb : b < 10 ^ width) {u v : List Char} (le : a < b ∨ (a = b ∧ ¬v < u)) :
    ¬(padDigits width b).toList ++ v < (padDigits width a).toList ++ u := by
  obtain less | ⟨rfl, rest⟩ := le
  · have same : (padDigits width a).toList.length = (padDigits width b).toList.length := by
      rw [length_padDigits some_ ha, length_padDigits some_ hb]
    have digits := ofDigitChars_lt (i := 0) (j := 0) padDigits_isDigit padDigits_isDigit same (by
      change digits _ < digits _
      rwa [digits_padDigits, digits_padDigits])
    exact List.lt_asymm (append_lt_append same (digits.resolve_left (lt_irrefl 0)).2)
  · exact List.append_left_le rest

/-- The text of a time with the layout of whole seconds and no zone. -/
def secondText (w : Int) : String := dateText (ofDays (w / 86400)) ++ "T" ++ clockText (w % 86400).toNat

/-- Years of four digits order as their texts, and a year before them comes first. -/
theorem secondText_mono {w w' : Int} (years : InYears w') (le : w ≤ w') :
    ¬(secondText w').toList < (secondText w).toList := by
  have month := ofDays_month (w / 86400)
  have month' := ofDays_month (w' / 86400)
  have day := ofDays_day (w / 86400)
  have day' := ofDays_day (w' / 86400)
  have year' := (inYears_iff w').mp years
  have marks : "-".toList = ['-'] ∧ "T".toList = ['T'] ∧ ":".toList = [':'] := ⟨rfl, rfl, rfl⟩
  have dates := ofDays_mono (show w / 86400 ≤ w' / 86400 by omega)
  by_cases early : InYears w
  · have year := (inYears_iff w).mp early
    have clock : ofDays (w / 86400) = ofDays (w' / 86400) → (w % 86400).toNat ≤ (w' % 86400).toNat := by
      intro same
      have days := congrArg Date.toDays same
      rw [toDays_ofDays, toDays_ofDays] at days
      omega
    have small : (w % 86400).toNat < 86400 ∧ (w' % 86400).toNat < 86400 := by omega
    simp only [secondText, dateText, clockText, yearText_eq year.1, yearText_eq year'.1, String.toList_append, marks,
      List.append_assoc, List.cons_append, List.nil_append]
    generalize ofDays (w / 86400) = d at *
    generalize ofDays (w' / 86400) = d' at *
    generalize (w % 86400).toNat = n at *
    generalize (w' % 86400).toNat = n' at *
    obtain ⟨y, m, k⟩ := d
    obtain ⟨y', m', k'⟩ := d'
    simp only [Date.months, Date.mk.injEq] at *
    have sep : ∀ {c : Char} {u v : List Char}, ¬v < u → ¬c :: v < c :: u :=
      fun h less => h (List.cons_lt_cons_self.mp less)
    have field : ∀ {a b : Nat} {u v : List Char}, a < 100 → b < 100 → (a < b ∨ (a = b ∧ ¬v < u)) →
        ¬(padDigits 2 b).toList ++ v < (padDigits 2 a).toList ++ u :=
      fun ha hb le => @padDigits_append_not_lt 2 _ _ (by decide) ha hb _ _ le
    -- field by field, and the next one where two are the same
    refine @padDigits_append_not_lt 4 _ _ (by decide) (by omega) (by omega) _ _
      (.imp_right (fun same => ⟨same.1, sep ?_⟩)
      (show y.toNat < y'.toNat ∨ (y.toNat = y'.toNat ∧ y = y') by omega))
    refine field (by omega) (by omega) (.imp_right (fun same => ⟨same.1, sep ?_⟩)
      (show m.toNat < m'.toNat ∨ (m.toNat = m'.toNat ∧ m = m') by omega))
    refine field (by omega) (by omega) (.imp_right (fun same => ⟨same.1, sep ?_⟩)
      (show k.toNat < k'.toNat ∨ (k.toNat = k'.toNat ∧ k = k') by omega))
    have rest := clock ⟨by omega, by omega, by omega⟩
    refine field (by omega) (by omega) (.imp_right (fun same => ⟨same.1, sep ?_⟩)
      (show n / 3600 < n' / 3600 ∨ (n / 3600 = n' / 3600 ∧ n % 3600 ≤ n' % 3600) by omega))
    refine field (by omega) (by omega) (.imp_right (fun same => ⟨same.1, sep ?_⟩)
      (show n % 3600 / 60 < n' % 3600 / 60 ∨ (n % 3600 / 60 = n' % 3600 / 60 ∧ n % 60 ≤ n' % 60) by omega))
    have last := @field (n % 60) (n' % 60) [] [] (by omega) (by omega)
      (show n % 60 < n' % 60 ∨ (n % 60 = n' % 60 ∧ ¬([] : List Char) < []) by simp; omega)
    rwa [List.append_nil, List.append_nil] at last
  · have negative : (ofDays (w / 86400)).year < 0 := by
      rw [inYears_iff] at early
      simp only [Date.months] at dates
      omega
    obtain ⟨c, rest, text⟩ :=
      List.exists_cons_of_ne_nil (show (yearText (ofDays (w' / 86400)).year).toList ≠ [] from fun empty => by
      have four := length_yearText.mpr year'
      rw [empty] at four
      cases four)
    have digit : c.isDigit = true := by
      rw [yearText_eq year'.1] at text
      exact padDigits_isDigit c (text ▸ List.mem_cons_self ..)
    have first : '-' < c := by
      have range := Char.isDigit_iff_toNat.mp digit
      rw [Char.lt_def, UInt32.lt_iff_toNat_lt]
      exact lt_of_lt_of_le (by decide) range.1
    have sign : yearText (ofDays (w / 86400)).year = "-" ++ padDigits 4 (-(ofDays (w / 86400)).year).toNat :=
      if_pos negative
    simp only [secondText, dateText, String.toList_append, text, sign, marks, List.cons_append, List.nil_append]
    exact List.lt_asymm (List.cons_lt_cons_iff.mpr (.inl first))

example : parseTime "2024-02-29T23:59:59Z" = some 1709251199 := by decide +kernel

example : parseTime "2023-02-29T00:00:00Z" = none := by decide +kernel

theorem secondText_lt {w w' : Int} (years : InYears w) (years' : InYears w') (less : w < w') :
    (secondText w).toList < (secondText w').toList := by
  by_contra later
  have same := String.toList_inj.mp (List.le_antisymm (secondText_mono years' less.le) later)
  have read := congrArg (fun s => parseTime (s ++ "Z")) same
  simp only [secondText, ← wireTimeText_eq, parseTime_text years, parseTime_text years'] at read
  exact less.ne (Option.some.inj read)

theorem length_secondText {w : Int} (years : InYears w) : (secondText w).toList.length = 19 := by
  have whole := length_wireTimeText w
  rw [length_yearText.mpr ((inYears_iff w).mp years), wireTimeText_eq, String.toList_append,
    List.length_append] at whole
  exact Nat.add_right_cancel whole

/-- The text `2006-01-02T15:04:05.000Z` of a stored time. -/
def storeTimeText (t : StoreTime) : String := secondText (t / 1000) ++ "." ++ padDigits 3 (t % 1000).toNat ++ "Z"

/-- SQL compares stored times as texts, and they compare as the times do. -/
theorem storeTimeText_lt {t t' : Int} (years : InYears (t / 1000)) (years' : InYears (t' / 1000)) (less : t < t') :
    (storeTimeText t).toList < (storeTimeText t').toList := by
  simp only [storeTimeText, String.toList_append, List.append_assoc]
  obtain earlier | same : t / 1000 < t' / 1000 ∨ t / 1000 = t' / 1000 := by omega
  · exact append_lt_append (by rw [length_secondText years,
      length_secondText years']) (secondText_lt years years' earlier)
  · have width (t : Int) : (padDigits 3 (t % 1000).toNat).toList.length = 3 :=
      length_padDigits (by decide) (by norm_num; omega)
    have widths := (width t).trans (width t').symm
    have millis := ofDigitChars_lt (i := 0) (j := 0) padDigits_isDigit padDigits_isDigit widths (by
      change digits _ < digits _
      rw [digits_padDigits, digits_padDigits]
      omega)
    rw [same]
    exact List.append_left_lt (List.append_left_lt (append_lt_append widths (millis.resolve_left (lt_irrefl 0)).2))

theorem new_year_text : (storeTimeText 1767225599999).toList < (storeTimeText 1767225600000).toList :=
  storeTimeText_lt (by decide) (by decide) (by decide)

end Agentnet
