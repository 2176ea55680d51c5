import Agentnet.Lib.Except
import Agentnet.Lib.Pages
import Agentnet.Times

/-! `audit_list`: the pages of the audit log, by batches of rows that SQL selects to the second and
`inWindow` exactly. -/

namespace Agentnet.Audit

open Lib

/-- A row of `audit_events`. Its `ts` is the text of a UTC time: `secondText`, a fraction and `Z`. -/
structure Row where
  id : Nat
  time : Time
  action : String
  years : InYears (time / second)

/-- The rows in the order of their ids. -/
structure Log where
  rows : List Row
  sorted : rows.Pairwise fun r r' => r.id < r'.id

structure ListParams where
  since : Option Time := none
  until_ : Option Time := none
  action : String := ""
  limit : Int := 0
  afterID : Int := 0

structure ListResult where
  events : List Row
  nextAfterID : Option Nat := none

inductive QueryError where
  | negativeLimit
  | negativeAfterID
  | outOfFuel

def defaultLimit : Nat := 1000
def maxLimit : Nat := 5000
def queryBatch : Nat := 1000

/-- `IsZero`: such a bound is none. -/
def zeroTime : Time := -62135596800 * second

namespace ListParams

variable (p : ListParams)

/-- The lower bound, if it is not the zero time. -/
def from_ : Option Time := p.since.filter (· ≠ zeroTime)

def till : Option Time := p.until_.filter (· ≠ zeroTime)

def limit_ : Nat := if p.limit = 0 then defaultLimit else min p.limit.toNat maxLimit

/-- `substr(action, 1, n) = ?`. -/
def hasAction (r : Row) : Bool := p.action = "" || r.action.toList.take p.action.toList.length = p.action.toList

/-- The second of a bound against the first 19 characters of `ts`. -/
def prefilter (r : Row) : Bool :=
  (p.from_.all fun t => !decide ((secondText (r.time / second)).toList < (secondText (t / second)).toList)) &&
    (p.till.all fun t =>
      !decide ((secondText (t / second)).toList < (secondText (r.time / second)).toList)) && p.hasAction r

/-- The rows of the time window, by the time itself. -/
def inWindow (r : Row) : Bool := p.from_.all (· ≤ r.time) && p.till.all (r.time ≤ ·)

end ListParams

/-- `readEntries`: one batch, and the rest of the query's rows. -/
def selected (p : ListParams) (rows : List Row) (after : Nat) : List Row :=
  rows.filter fun r => after < r.id && p.prefilter r

/-- The loop over a batch: the events, and whether one more row matches than the limit. -/
def scan (p : ListParams) : List Row → List Row → List Row × Bool
  | [], events => (events, false)
  | r :: batch, events =>
    if !p.inWindow r then scan p batch events
    else if events.length = p.limit_ then (events, true)
    else scan p batch (events ++ [r])

def queryLoop (p : ListParams) (rows : List Row) : Nat → Nat → List Row → Except QueryError ListResult
  | 0, _, _ => .error .outOfFuel
  | fuel + 1, after, events =>
    let batch := (selected p rows after).take queryBatch
    match scan p batch events with
    | (events, true) => .ok ⟨events, events.getLast?.map Row.id⟩
    | (events, false) =>
      if batch.length < queryBatch then .ok ⟨events, none⟩
      else queryLoop p rows fuel ((batch.getLast?.map Row.id).getD 0) events

def query (log : Log) (p : ListParams) : Except QueryError ListResult :=
  if p.limit < 0 then .error .negativeLimit
  else if p.afterID < 0 then .error .negativeAfterID
  else queryLoop p log.rows (log.rows.length + 1) p.afterID.toNat []

/-- Calls one after the other, each from where the one before ended: the events, and the log of a call that ends
the pages. -/
def follow (p : ListParams) : List Log → Nat → List Row × Option Log
  | [], _ => ([], none)
  | log :: logs, after =>
    match query log { p with afterID := after } with
    | .error _ => ([], none)
    | .ok ⟨events, none⟩ => (events, some log)
    | .ok ⟨events, some next⟩ => (events ++ (follow p logs next).1, (follow p logs next).2)

/-! ## What the rows should be -/

/-- The row is in the window and has the action. -/
def Matches (p : ListParams) (r : Row) : Bool :=
  p.since.all (· ≤ r.time) && p.until_.all (r.time ≤ ·) && p.hasAction r

/-- What a query from `after` on should list. -/
def matching (p : ListParams) (log : Log) (after : Nat) : List Row :=
  log.rows.filter fun r => after < r.id && Matches p r

/-- The first time that a row can have, in the year 0. -/
def firstTime : Time := -62167219200 * second

/-- The year 10000, after every row. -/
def endTime : Time := 253402300800 * second

/-- A bound that is the zero time, or an end in the year 10000, does no harm only if the other bound leaves no row. -/
structure Plain (p : ListParams) : Prop where
  since : p.since = some zeroTime → ∃ t ∈ p.until_, t < firstTime
  until_ : ∀ t ∈ p.until_, t = zeroTime ∨ endTime ≤ t → ∃ t ∈ p.since, endTime ≤ t

section

variable {p : ListParams} {rows batch events : List Row} {r : Row} {after fuel : Nat}

theorem Row.first_le (r : Row) : firstTime ≤ r.time := (Int.le_ediv_iff_mul_le (by decide)).mp r.years.1

theorem Row.lt_end (r : Row) : r.time < endTime := (Int.ediv_lt_iff_lt_mul (by decide)).mp r.years.2

/-- A zero time is no bound. -/
theorem mem_from {t : Time} : t ∈ p.from_ ↔ t ∈ p.since ∧ t ≠ zeroTime := by
  simp [ListParams.from_, Option.filter_eq_some_iff]

theorem mem_till {t : Time} : t ∈ p.till ↔ t ∈ p.until_ ∧ t ≠ zeroTime := by
  simp [ListParams.till, Option.filter_eq_some_iff]

theorem matches_iff : Matches p r = true ↔
    (∀ t ∈ p.since, t ≤ r.time) ∧ (∀ t ∈ p.until_, r.time ≤ t) ∧ p.hasAction r = true := by
  simp [Matches, Option.all_eq_true, and_assoc]

theorem inWindow_iff : p.inWindow r = true ↔ (∀ t ∈ p.from_, t ≤ r.time) ∧ ∀ t ∈ p.till, r.time ≤ t := by
  simp [ListParams.inWindow, Option.all_eq_true]

theorem prefilter_iff : p.prefilter r = true ↔
    (∀ t ∈ p.from_, ¬(secondText (r.time / second)).toList < (secondText (t / second)).toList) ∧
    (∀ t ∈ p.till, ¬(secondText (t / second)).toList < (secondText (r.time / second)).toList) ∧
    p.hasAction r = true := by
  simp [ListParams.prefilter, Option.all_eq_true, and_assoc]

/-- The rows that are listed are those that match. -/
def Agrees (p : ListParams) : Prop := ∀ r, Matches p r = true ↔ p.prefilter r = true ∧ p.inWindow r = true

/-- SQL hides no row of the window. -/
theorem prefilter_of_inWindow (plain : Plain p) (inside : p.inWindow r = true) (action : p.hasAction r = true) :
    p.prefilter r = true := by
  obtain ⟨begun, going⟩ := inWindow_iff.mp inside
  refine prefilter_iff.mpr ⟨fun t given => ?_, fun t given => ?_, action⟩
  · exact secondText_mono r.years (Int.ediv_le_ediv (by decide) (begun t given))
  · have before : t < endTime := by
      by_contra after
      obtain ⟨s, since, late⟩ := plain.until_ t (mem_till.mp given).1 (.inr (not_lt.mp after))
      have counts : s ≠ zeroTime := (lt_of_lt_of_le (by decide) late).ne'
      exact absurd (late.trans (begun s (mem_from.mpr ⟨since, counts⟩))) (not_le.mpr r.lt_end)
    have seconds : r.time / second ≤ t / second := Int.ediv_le_ediv (by decide) (going t given)
    have last : t / second < 253402300800 := Int.ediv_lt_of_lt_mul (by decide) before
    exact secondText_mono ⟨r.years.1.trans seconds, last⟩ seconds

/-- Where a bound does not count, the other one leaves no row. -/
theorem inWindow_all (plain : Plain p) (inside : p.inWindow r = true) :
    (∀ t ∈ p.since, t ≤ r.time) ∧ ∀ t ∈ p.until_, r.time ≤ t := by
  obtain ⟨begun, going⟩ := inWindow_iff.mp inside
  constructor
  · intro t given
    by_cases zero : t = zeroTime
    · obtain ⟨s, until_, before⟩ := plain.since (zero ▸ given)
      have late := going s (mem_till.mpr ⟨until_, (before.trans (by decide)).ne⟩)
      exact absurd (r.first_le.trans late) (not_le.mpr before)
    · exact begun t (mem_from.mpr ⟨given, zero⟩)
  · intro t given
    by_cases zero : t = zeroTime
    · obtain ⟨s, since, after⟩ := plain.until_ t given (.inl zero)
      have early := begun s (mem_from.mpr ⟨since, (lt_of_lt_of_le (by decide) after).ne'⟩)
      exact absurd (after.trans early) (not_le.mpr r.lt_end)
    · exact going t (mem_till.mpr ⟨given, zero⟩)

/-- For plain parameters the rows that match are those that pass both filters. -/
theorem Plain.agrees (plain : Plain p) : Agrees p := by
  intro r
  constructor
  · intro found
    obtain ⟨begun, going, action⟩ := matches_iff.mp found
    have inside : p.inWindow r = true :=
      inWindow_iff.mpr ⟨fun t given => begun t (mem_from.mp given).1, fun t given => going t (mem_till.mp given).1⟩
    exact ⟨prefilter_of_inWindow plain inside action, inside⟩
  · rintro ⟨found, inside⟩
    obtain ⟨begun, going⟩ := inWindow_all plain inside
    exact matches_iff.mpr ⟨begun, going, (prefilter_iff.mp found).2.2⟩

/-- A row of the action that is asked for. -/
def rowAt (p : ListParams) (time : Time) (years : InYears (time / second)) : Row := ⟨1, time, p.action, years⟩

theorem hasAction_rowAt (time : Time) (years : InYears (time / second)) :
    p.hasAction (rowAt p time years) = true := by
  simp [ListParams.hasAction, rowAt]

/-- The texts of the first day of the year 10000. -/
theorem secondText_end {t : Int} (after : endTime ≤ t) (soon : t < endTime + day) :
    ∃ rest, (secondText (t / second)).toList = '1' :: rest := by
  have low : 253402300800 ≤ t / second := (Int.le_ediv_iff_mul_le (by decide)).mpr after
  have high : t / second < 253402387200 := Int.ediv_lt_of_lt_mul (by decide) soon
  generalize t / second = w at *
  have days : w / 86400 = 2932897 := by omega
  have date : (dateText (Civil.ofDays 2932897)).toList = '1' :: "0000-01-01".toList := by decide +kernel
  rw [secondText, days, String.toList_append, String.toList_append, date]
  exact ⟨_, rfl⟩

/-- Where the zero time is the start, the row of the first moment is listed wrongly unless the end is before it. -/
theorem Agrees.since (agrees : Agrees p) (parsed : ∀ t ∈ p.until_, t < endTime + day)
    (zero : p.since = some zeroTime) : ∃ t ∈ p.until_, t < firstTime := by
  by_contra! none_
  have first : InYears (firstTime / second) := by decide
  -- the row of the first moment is before the zero time, and is listed
  have inside : p.inWindow (rowAt p firstTime first) = true := by
    refine inWindow_iff.mpr ⟨fun t given => ?_, fun t given => none_ t (mem_till.mp given).1⟩
    exact absurd (Option.mem_unique (mem_from.mp given).1 zero) (mem_from.mp given).2
  have shown : p.prefilter (rowAt p firstTime first) = true := by
    refine prefilter_iff.mpr ⟨fun t given => ?_, fun t given => ?_, hasAction_rowAt ..⟩
    · exact absurd (Option.mem_unique (mem_from.mp given).1 zero) (mem_from.mp given).2
    have given := (mem_till.mp given).1
    have low := none_ t given
    by_cases before : t < endTime
    · exact secondText_mono ⟨(Int.le_ediv_iff_mul_le (by decide)).mpr low, Int.ediv_lt_of_lt_mul (by decide) before⟩
        (Int.ediv_le_ediv (by decide) low)
    · obtain ⟨rest, text⟩ := secondText_end (not_lt.mp before) (parsed t given)
      have year : (secondText (firstTime / second)).toList = '0' :: "000-01-01T00:00:00".toList := by decide +kernel
      rw [text, rowAt, year]
      simp [List.cons_lt_cons_iff]
  have found := (matches_iff.mp ((agrees _).mpr ⟨shown, inside⟩)).1 zeroTime zero
  exact absurd found (show ¬zeroTime ≤ firstTime by decide)

/-- Where the end is the zero time or too late, the row of the last moment is. -/
theorem Agrees.until_ (agrees : Agrees p) (parsed : ∀ t ∈ p.until_, t < endTime + day) {t : Time}
    (given : t ∈ p.until_) (odd : t = zeroTime ∨ endTime ≤ t) : ∃ t ∈ p.since, endTime ≤ t := by
  by_contra! none_
  have last : InYears ((endTime - 1) / second) := by decide
  have begun : ∀ s ∈ p.since, s ≤ endTime - 1 := fun s since => Int.le_sub_one_of_lt (none_ s since)
  obtain rfl | after := odd
  · -- the row of the last moment is after the zero time, and is listed
    have going : ∀ s, s ∉ p.till :=
      fun s given' => (mem_till.mp given').2 (Option.mem_unique (mem_till.mp given').1 given)
    have inside : p.inWindow (rowAt p (endTime - 1) last) = true :=
      inWindow_iff.mpr ⟨fun s since => begun s (mem_from.mp since).1, fun s given' => absurd given' (going s)⟩
    have shown : p.prefilter (rowAt p (endTime - 1) last) = true :=
      prefilter_iff.mpr ⟨fun s since =>
        secondText_mono last (Int.ediv_le_ediv (by decide) (begun s (mem_from.mp since).1)),
        fun s given' => absurd given' (going s), hasAction_rowAt ..⟩
    have found := (matches_iff.mp ((agrees _).mpr ⟨shown, inside⟩)).2.1 zeroTime given
    exact absurd found (show ¬endTime - 1 ≤ zeroTime by decide)
  · -- the row of the last moment is in the window, and hidden
    have alone : ∀ s ∈ p.until_, endTime - 1 ≤ s := fun s given' => by
      rw [Option.mem_unique given' given]
      exact (Int.sub_le_self _ (by decide)).trans after
    have found : Matches p (rowAt p (endTime - 1) last) = true := matches_iff.mpr ⟨begun, alone, hasAction_rowAt ..⟩
    have counts : t ≠ zeroTime := (lt_of_lt_of_le (by decide) after).ne'
    have hidden := (prefilter_iff.mp ((agrees _).mp found).1).2.1 t (mem_till.mpr ⟨given, counts⟩)
    obtain ⟨rest, text⟩ := secondText_end after (parsed t given)
    have year : (secondText ((endTime - 1) / second)).toList = '9' :: "999-12-31T23:59:59".toList := by
      decide +kernel
    rw [text, rowAt, year] at hidden
    simp [List.cons_lt_cons_iff] at hidden

theorem Agrees.plain (agrees : Agrees p) (parsed : ∀ t ∈ p.until_, t < endTime + day) : Plain p :=
  ⟨agrees.since parsed, fun _ => agrees.until_ parsed⟩

/-! ## One call -/

theorem scan_eq (p : ListParams) (batch events : List Row) (le : events.length ≤ p.limit_) :
    scan p batch events = ((events ++ batch.filter p.inWindow).take p.limit_,
      decide (p.limit_ < (events ++ batch.filter p.inWindow).length)) := by
  induction batch generalizing events with
  | nil => simp [scan, le, List.take_of_length_le]
  | cons r batch ih =>
    rw [scan]
    by_cases inside : p.inWindow r = true
    · rw [List.filter_cons_of_pos inside, inside]
      simp only [Bool.not_true, Bool.false_eq_true, if_false]
      by_cases full : events.length = p.limit_
      · rw [if_pos full, ← full]
        simp
      · rw [if_neg full, ih _ (by simp; omega), List.append_assoc]
        rfl
    · rw [List.filter_cons_of_neg inside, if_pos (by simpa using inside), ih events le]

/-- The page of what is left to list. -/
def page (limit : Nat) (left : List Row) : ListResult :=
  ⟨left.take limit, if limit < left.length then (left.take limit).getLast?.map Row.id else none⟩

theorem exists_last {n : Nat} (some_ : 0 < n) (full : n ≤ rows.length) :
    ∃ front last, rows.take n = front ++ [last] := by
  refine (List.eq_nil_or_concat' _).resolve_left fun empty => ?_
  have size := congrArg List.length empty
  rw [List.length_take, Nat.min_eq_left full, List.length_nil] at size
  omega

/-- After the last row of a batch come the rows after the batch. -/
theorem selected_after (sorted : rows.Pairwise fun r r' => r.id < r'.id)
    (full : queryBatch ≤ (selected p rows after).length) :
    selected p rows ((((selected p rows after).take queryBatch).getLast?.map Row.id).getD 0) =
      (selected p rows after).drop queryBatch := by
  obtain ⟨front, last, parts⟩ := exists_last (by decide : 0 < queryBatch) full
  have whole := List.take_append_drop queryBatch (selected p rows after)
  rw [parts, List.append_assoc, List.singleton_append] at whole
  rw [parts, List.getLast?_concat, Option.map_some, Option.getD_some]
  exact filter_next sorted whole.symm

/-- The loop gives one page of all the selected rows, if the fuel covers them. -/
theorem queryLoop_eq (sorted : rows.Pairwise fun r r' => r.id < r'.id) (le : events.length ≤ p.limit_)
    (enough : (selected p rows after).length < fuel) :
    queryLoop p rows fuel after events = .ok
      (page p.limit_ (events ++ (selected p rows after).filter p.inWindow)) := by
  induction fuel generalizing after events with
  | zero => cases enough
  | succ fuel ih =>
    have whole := List.take_append_drop queryBatch (selected p rows after)
    have left : events ++ (selected p rows after).filter p.inWindow =
        (events ++ ((selected p rows after).take queryBatch).filter p.inWindow) ++
          ((selected p rows after).drop queryBatch).filter p.inWindow := by
      rw [List.append_assoc, ← List.filter_append, whole]
    rw [queryLoop, scan_eq p _ events le]
    by_cases more : p.limit_ < (events ++ ((selected p rows after).take queryBatch).filter p.inWindow).length
    · simp only [more, decide_true]
      rw [page, left, List.take_append_of_le_length more.le, if_pos (by rw [List.length_append]; omega)]
    · simp only [more, decide_false]
      have short := not_lt.mp more
      rw [List.take_of_length_le short]
      by_cases last : ((selected p rows after).take queryBatch).length < queryBatch
      · have all : (selected p rows after).take queryBatch = selected p rows after := by
          rw [List.length_take] at last
          exact List.take_of_length_le (by omega)
        rw [all] at short
        rw [if_pos last, all, page, List.take_of_length_le short, if_neg (not_lt.mpr short)]
      · have full : queryBatch ≤ (selected p rows after).length := by
          rw [List.length_take] at last
          omega
        have fewer :
            (selected p rows ((((selected p rows after).take queryBatch).getLast?.map Row.id).getD 0)).length <
              fuel := by
          rw [selected_after sorted full, List.length_drop]
          have : 0 < queryBatch := by decide
          omega
        rw [if_neg last, ih short fewer, selected_after sorted full, left]

theorem selected_inWindow (agrees : Agrees p) (log : Log) (after : Nat) :
    (selected p log.rows after).filter p.inWindow = matching p log after := by
  rw [selected, List.filter_filter, matching]
  refine List.filter_congr fun r _ => ?_
  rw [Bool.eq_iff_iff]
  simp only [Bool.and_eq_true, agrees r]
  tauto

/-- The afterID of the parameters is not read by what a row must meet. -/
theorem query_page (positive : 0 ≤ p.limit) (log : Log) (after : Nat) : query log { p with afterID := after } =
    .ok (page p.limit_ ((selected p log.rows after).filter p.inWindow)) := by
  have loop := @queryLoop_eq { p with afterID := after } log.rows [] after (log.rows.length + 1) log.sorted
    (Nat.zero_le _) (Nat.lt_succ_of_le List.filter_sublist.length_le)
  rw [query, if_neg (not_lt.mpr positive), if_neg (by simp), Int.toNat_natCast, loop, List.nil_append]
  rfl

theorem query_eq (agrees : Agrees p) (positive : 0 ≤ p.limit) (log : Log) (after : Nat) :
    query log { p with afterID := after } = .ok (page p.limit_ (matching p log after)) := by
  rw [query_page positive, selected_inWindow agrees]

end

/-! ## Following the pages -/

section

variable {p : ListParams} {log log' : Log} {after : Nat}

theorem limit_pos (positive : 0 ≤ p.limit) : 0 < p.limit_ := by
  rw [ListParams.limit_]
  split
  · decide
  · have := (by decide : 0 < maxLimit)
    omega

/-- What comes after a page is what was left before it, without the page. -/
theorem matching_next (grows : log.rows <+: log'.rows) (positive : 0 ≤ p.limit)
    (more : p.limit_ < (matching p log after).length) :
    ∃ n, (page p.limit_ (matching p log after)).nextAfterID = some n ∧
      matching p log' after = (matching p log after).take p.limit_ ++ matching p log' n := by
  obtain ⟨new, grown⟩ := grows
  obtain ⟨front, last, parts⟩ := exists_last (limit_pos positive) more.le
  have whole : matching p log' after = front ++ last :: ((matching p log after).drop p.limit_ ++ new.filter fun r =>
      after < r.id && Matches p r) := by
    calc matching p log' after
      _ = matching p log after ++ new.filter fun r => after < r.id && Matches p r := by
        rw [matching, ← grown, List.filter_append]
        rfl
      _ = ((matching p log after).take p.limit_ ++ (matching p log after).drop p.limit_) ++ _ := by
        rw [List.take_append_drop]
      _ = _ := by simp [parts]
  refine ⟨last.id, by rw [page, if_pos more, parts, List.getLast?_concat]; rfl, ?_⟩
  have next : matching p log' last.id = (matching p log after).drop p.limit_ ++ new.filter fun r =>
      after < r.id && Matches p r :=
    filter_next log'.sorted whole
  rw [next, whole, parts, List.append_assoc, List.singleton_append]

theorem follow_cons (agrees : Agrees p) (positive : 0 ≤ p.limit) (logs : List Log) :
    follow p (log :: logs) after = match (page p.limit_ (matching p log after)).nextAfterID with
      | none => (matching p log after, some log)
      | some n => ((matching p log after).take p.limit_ ++ (follow p logs n).1, (follow p logs n).2) := by
  rw [follow, query_eq agrees positive]
  by_cases more : p.limit_ < (matching p log after).length
  · obtain ⟨n, next, -⟩ := matching_next (List.prefix_refl _) positive more
    simp only [page, if_pos more] at next ⊢
    rw [next]
  · simp only [page, if_neg more, List.take_of_length_le (not_lt.mp more)]

/-- The pages up to the last one, while the log grows between them. -/
theorem follow_done (agrees : Agrees p) (positive : 0 ≤ p.limit) {logs : List Log}
    (grows : logs.Pairwise fun l l' => l.rows <+: l'.rows) {final : Log}
    (done : (follow p logs after).2 = some final) :
    final ∈ logs ∧ (follow p logs after).1 = matching p final after := by
  induction logs generalizing after with
  | nil => cases done
  | cons log logs ih =>
    obtain ⟨first, rest⟩ := List.pairwise_cons.mp grows
    rw [follow_cons agrees positive] at done ⊢
    by_cases more : p.limit_ < (matching p log after).length
    · obtain ⟨n, next, -⟩ := matching_next (List.prefix_refl _) positive more
      simp only [next] at done ⊢
      obtain ⟨mem, events⟩ := ih rest done
      obtain ⟨n', next', whole⟩ := matching_next (first final mem) positive more
      cases next.symm.trans next'
      exact ⟨List.mem_cons_of_mem _ mem, by rw [events, whole]⟩
    · simp only [page, if_neg more] at done ⊢
      cases done
      exact ⟨List.mem_cons_self .., rfl⟩

/-- On a log that does not grow, the pages end. -/
theorem follow_ends (agrees : Agrees p) (positive : 0 ≤ p.limit) (log : Log) {calls : Nat}
    (enough : (matching p log after).length < calls) :
    (follow p (List.replicate calls log) after).2 = some log := by
  induction calls generalizing after with
  | zero => cases enough
  | succ calls ih =>
    rw [List.replicate_succ, follow_cons agrees positive]
    by_cases more : p.limit_ < (matching p log after).length
    · obtain ⟨n, next, whole⟩ := matching_next (List.prefix_refl _) positive more
      simp only [next]
      apply ih
      have size := congrArg List.length whole
      have some_ := limit_pos positive
      rw [List.length_append, List.length_take] at size
      omega
    · simp only [page, if_neg more]

end

/-- SQL hides no row of the window; a page holds at most the limit, and says how to go on exactly when a further row
matches; the pages list every matching row once, in the order of the ids, and no other, while the log grows between
them; and on a log that does not grow they end. -/
structure PagesExact (p : ListParams) : Prop where
  shown : ∀ r, p.inWindow r = true → p.hasAction r = true → p.prefilter r = true
  call : ∀ log (after : Nat), ∃ result, query log { p with afterID := after } = .ok result ∧
    result.events = (matching p log after).take p.limit_ ∧
    (result.nextAfterID.isSome = true ↔ p.limit_ < (matching p log after).length)
  followed : ∀ logs (after : Nat) final, logs.Pairwise (fun l l' => l.rows <+: l'.rows) →
    (follow p logs after).2 = some final → (follow p logs after).1 = matching p final after
  ends : ∀ log (after : Nat), ∃ calls, (follow p (List.replicate calls log) after).2 = some log

/-- A log of one row shows whether the row is listed. -/
theorem PagesExact.agrees {p : ListParams} (positive : 0 ≤ p.limit) (exact_ : PagesExact p) : Agrees p := by
  intro r
  let row : Row := { r with id := 1 }
  obtain ⟨result, answer, events, -⟩ := exact_.call ⟨[row], by simp⟩ 0
  rw [query_page positive] at answer
  cases answer
  have one : ∀ q : Row → Bool, ([row].filter q).take p.limit_ = [row].filter q := fun q =>
    List.take_of_length_le ((List.length_filter_le ..).trans (limit_pos positive))
  simp only [page, selected, matching, List.filter_filter, one] at events
  have listed := congrArg (row ∈ ·) events
  simp only [List.mem_filter, List.mem_singleton, true_and, Bool.and_eq_true, eq_iff_iff] at listed
  have fresh : decide (0 < row.id) = true := rfl
  exact ⟨fun found => ⟨(listed.mpr ⟨fresh, found⟩).2.2, (listed.mpr ⟨fresh, found⟩).1⟩,
    fun shown => (listed.mp ⟨shown.2, fresh, shown.1⟩).2⟩

/-- The bounds that `time.Parse` gives are at most a day after the year 9999. The pages are exact for those that are
plain and for no others. -/
theorem pages_exact {p : ListParams} (positive : 0 ≤ p.limit) (parsed : ∀ t ∈ p.until_, t < endTime + day) :
    PagesExact p ↔ Plain p := by
  refine ⟨fun exact_ => (exact_.agrees positive).plain parsed, fun plain => ?_⟩
  have agrees := plain.agrees
  refine ⟨fun r => prefilter_of_inWindow plain, fun log after => ?_,
    fun logs after final grows done => (follow_done agrees positive grows done).2,
    fun log after => ⟨_, follow_ends agrees positive log (Nat.lt_succ_self _)⟩⟩
  refine ⟨_, query_eq agrees positive log after, rfl, ?_⟩
  by_cases more : p.limit_ < (matching p log after).length
  · obtain ⟨n, next, -⟩ := matching_next (List.prefix_refl log.rows) positive more
    simp [next, more]
  · simp [page, more]

/-- One row, of 2026. -/
def oneRow : Log := ⟨[⟨1, 1794873600 * second, "peer.pair", by decide⟩], by decide⟩

theorem row_listed : (follow { until_ := some (1794873601 * second) } [oneRow] 0).1 =
    matching { until_ := some (1794873601 * second) } oneRow 0 :=
  ((pages_exact (by decide) (by decide)).mpr ⟨by decide, by decide⟩).followed [oneRow] 0 oneRow (by simp) (by rfl)

/-- `9999-12-31T23:59:59-01:00` is in the year 10000 of UTC, whose text comes before that of every row. -/
theorem year_10000_hides_rows : let p : ListParams := { until_ := some (253402304399 * second) }
    (matching p oneRow 0).length = 1 ∧ ∃ result, query oneRow p = .ok result ∧ result.events = [] := by
  refine ⟨by decide +kernel, ⟨[], none⟩, by rfl, rfl⟩

end Agentnet.Audit
