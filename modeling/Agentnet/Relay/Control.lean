import Agentnet.Lib.Run
import Agentnet.Relay.Buckets

/-! `controlAllowed`: the rate of control frames per key, and the connection that is closed for exceeding it
in three one-minute windows in a row. -/

namespace Agentnet.Relay.Control

open Lib

structure ControlWindow where
  /-- The current one-minute window. -/
  idx : Int
  /-- The control frames in it. -/
  n : Int := 0
  /-- The last window in which the rate was exceeded. -/
  overIdx : Int := 0
  /-- Consecutive windows over the rate, ending at `overIdx`. -/
  strikes : Nat := 0
  deriving DecidableEq

def controlWindow : Time := minute
def controlStrikeLimit : Nat := 3

/-- The windows by key. -/
structure Limits where
  control : Dict String ControlWindow := ∅
  ctlPrune : Time := 0

/-- `UnixNano`: an int64, which wraps for a time that it cannot represent. -/
def unixNano (now : Time) : Int := now.bmod (2 ^ 64)

/-- The one-minute window of a time, by Go's division. -/
def windowOf (now : Time) : Int := (unixNano now).tdiv controlWindow

/-- The last time that `UnixNano` represents, in 2262. -/
def lastTime : Time := 2 ^ 63 - 1

def prune (l : Limits) (now : Time) : Limits :=
  { control := l.control.keep fun _ w => ¬w.idx < windowOf now - 1, ctlPrune := now }

namespace ControlWindow

def roll (w : ControlWindow) (idx : Int) : ControlWindow :=
  if w.idx ≠ idx then { w with strikes := if w.overIdx ≠ idx - 1 then 0 else w.strikes, idx := idx, n := 0 } else w

/-- The window after one more frame, and whether the frame passes and whether it closes the connection. -/
def hit (perMin : Int) (w : ControlWindow) : ControlWindow × Bool × Bool :=
  let w := { w with n := w.n + 1 }
  if w.n ≤ perMin then (w, true, false)
  else
    let w := if w.overIdx ≠ w.idx then { w with overIdx := w.idx, strikes := w.strikes + 1 } else w
    (w, false, controlStrikeLimit ≤ w.strikes)

end ControlWindow

def current (l : Limits) (key : String) (idx : Int) : ControlWindow := ((l.control.lookup key).getD { idx }).roll idx

def controlAllowed (perMin : Int) (l : Limits) (key : String) (now : Time) : Limits × Bool × Bool :=
  if perMin ≤ 0 then (l, true, false)
  else
    let l := if bucketPruneThreshold ≤ l.control.entries.length ∧
        controlWindow ≤ now - l.ctlPrune then prune l now else l
    let (w, answer) := (current l key (windowOf now)).hit perMin
    ({ l with control := l.control.insert key w }, answer)

inductive Op where
  | frame (key : String)
  | prune

/-- A control frame or a prune, and the time of it. -/
structure Event where
  now : Time
  op : Op

/-- One event. -/
def step (perMin : Int) (l : Limits) (e : Event) : Limits :=
  match e.op with
  | .frame key => (controlAllowed perMin l key e.now).1
  | .prune => prune l e.now

/-- The frame of `key` in window `i`. -/
def Event.counts (key : String) (i : Int) (e : Event) : Bool :=
  match e.op with
  | .frame k => k = key && windowOf e.now = i
  | .prune => false

def frames (es : List Event) (key : String) (i : Int) : Nat := es.countP (Event.counts key i)

/-- `key` sends more than its rate in window `i`. A rate of 0 is no limit. -/
def Over (perMin : Int) (es : List Event) (key : String) (i : Int) : Prop := 0 < perMin ∧ perMin < frames es key i

instance (perMin : Int) (es : List Event) (key : String) (i : Int) : Decidable (Over perMin es key i) :=
  inferInstanceAs (Decidable (_ ∧ _))

/-! ## What the window of a key knows -/

section

variable {perMin idx idx' : Int} {count : Int → Nat} {w : ControlWindow} {o : Option ControlWindow}

/-- The last `k` windows up to `i` are over, and the one before them is not. -/
def Streak (above : Int → Prop) (i : Int) (k : Nat) : Prop := (∀ j, i - k < j → j ≤ i → above j) ∧ ¬above (i - k)

variable {i : Int} {k : Nat} {above above' : Int → Prop}

theorem Streak.three (h : Streak above i k) : 3 ≤ k ↔ above i ∧ above (i - 1) ∧ above (i - 2) := by
  obtain ⟨all, last⟩ := h
  constructor
  · intro many
    exact ⟨all i (by omega) le_rfl, all (i - 1) (by omega) (by omega), all (i - 2) (by omega) (by omega)⟩
  · rintro ⟨zero, one, two⟩
    by_contra few
    obtain rfl | rfl | rfl : k = 0 ∨ k = 1 ∨ k = 2 := by omega
    · exact last (by simpa using zero)
    · exact last one
    · exact last two

theorem Streak.congr (h : Streak above i k) (same : ∀ j ≤ i, above' j ↔ above j) : Streak above' i k :=
  ⟨fun j low high => (same j high).mpr (h.1 j low high), fun last => h.2 ((same _ (by omega)).mp last)⟩

theorem Streak.extend (h : Streak above (i - 1) k)
    (same : ∀ j ≤ i - 1, above' j ↔ above j) (now_ : above' i) : Streak above' i (k + 1) := by
  obtain ⟨all, last⟩ := h.congr same
  have before : i - (k + 1 : Nat) = i - 1 - k := by
    push_cast
    ring
  rw [Streak, before]
  refine ⟨fun j low high => ?_, last⟩
  by_cases here : j = i
  · exact here ▸ now_
  · exact all j low (by omega)

/-- A window `i` in which the key sent `n` frames. -/
structure Knows (perMin : Int) (count : Int → Nat) (i n overIdx : Int) (strikes : Nat) : Prop where
  first : 1 ≤ i
  none_ : ∀ j, i < j → count j = 0
  frames : n = count i
  overLe : overIdx ≤ i
  above : overIdx = i ↔ perMin < count i
  streak : Streak (fun j => perMin < count j) (if overIdx = i then i else i - 1) strikes

/-- The state of a key whose frames per window are `count`, when the clock is in window `idx`. -/
def Tracks (perMin : Int) (count : Int → Nat) (idx : Int) : Option ControlWindow → Prop
  | none => ∀ i, idx - 1 ≤ i → count i = 0
  | some w => w.idx ≤ idx ∧ Knows perMin count w.idx w.n w.overIdx w.strikes

/-- The counts hold for a later window too. -/
theorem Tracks.later (h : Tracks perMin count idx o) (le : idx ≤ idx') : Tracks perMin count idx' o := by
  cases o with
  | none => exact fun i late => h i (by omega)
  | some w => exact ⟨h.1.trans le, h.2⟩

theorem Tracks.forget (h : Tracks perMin count idx (some w)) (old : w.idx < idx - 1) : Tracks perMin count idx none :=
  fun i late => h.2.none_ i (by omega)

/-- A new window after one that was not over, or after an idle one. -/
theorem Knows.fresh (first : 1 ≤ idx) (none_ : ∀ j, idx ≤ j → count j = 0) (quiet : ¬perMin < count (idx - 1))
    {overIdx : Int} (before : overIdx < idx) : Knows perMin count idx 0 overIdx 0 := by
  have zero := none_ idx le_rfl
  refine ⟨first, fun j late => none_ j late.le, by omega, before.le, by omega, ?_⟩
  rw [if_neg before.ne]
  exact ⟨fun j low high => by omega, by simpa using quiet⟩

theorem Tracks.roll (on : 0 < perMin) (first : 1 ≤ idx) (h : Tracks perMin count idx o) :
    Tracks perMin count idx (some ((o.getD { idx }).roll idx)) ∧ ((o.getD { idx }).roll idx).idx = idx := by
  cases o with
  | none =>
    have quiet : ¬perMin < count (idx - 1) := by
      rw [h (idx - 1) le_rfl]
      omega
    rw [Option.getD_none, ControlWindow.roll, if_neg (not_not.mpr rfl)]
    exact ⟨⟨le_rfl, .fresh first (fun j late => h j (by omega)) quiet first⟩, rfl⟩
  | some w =>
    obtain ⟨le, known⟩ := h
    rw [Option.getD_some, ControlWindow.roll]
    by_cases same : w.idx = idx
    · rw [if_neg (not_not.mpr same)]
      exact ⟨⟨le, known⟩, same⟩
    · have early : w.idx < idx := lt_of_le_of_ne le same
      have later : ∀ j, idx ≤ j → count j = 0 := fun j late => known.none_ j (by omega)
      rw [if_pos same]
      refine ⟨⟨le_rfl, ?_⟩, rfl⟩
      by_cases next : w.overIdx = idx - 1
      · -- the window before this one was the current one, and over
        have here : w.idx = idx - 1 := by
          have := known.overLe
          omega
        have streak := known.streak
        rw [if_pos (next.trans here.symm), here] at streak
        have zero := later idx le_rfl
        refine ⟨first, fun j late => later j late.le,
          by simp [zero], by simp only; omega, by simp only [zero]; omega, ?_⟩
        simpa [next] using streak
      · have quiet : ¬perMin < count (idx - 1) := by
          by_cases here : w.idx = idx - 1
          · have above := known.above
            rw [here] at above
            exact fun more => next (above.mpr more)
          · rw [known.none_ (idx - 1) (by omega)]
            omega
        simp only [next, ne_eq, not_false_eq_true, if_true]
        exact .fresh first later quiet (known.overLe.trans_lt early)

theorem Knows.hit (known : Knows perMin count w.idx w.n w.overIdx w.strikes) (count' : Int → Nat)
    (one : count' w.idx = count w.idx + 1) (others : ∀ i, i ≠ w.idx → count' i = count i) :
    (∃ n overIdx strikes, (w.hit perMin).1 = ⟨w.idx, n, overIdx, strikes⟩ ∧
      Knows perMin count' w.idx n overIdx strikes) ∧ ((w.hit perMin).2.1 = true ↔ ¬perMin < count' w.idx) ∧
      ((w.hit perMin).2.2 = true ↔
        perMin < count' w.idx ∧ perMin < count' (w.idx - 1) ∧ perMin < count' (w.idx - 2)) := by
  obtain ⟨i, n, overIdx, strikes⟩ := w
  obtain ⟨first, none_, frames, overLe, above, streak⟩ := known
  dsimp only at *
  have none' : ∀ j, i < j → count' j = 0 := fun j late => (others j late.ne').trans (none_ j late)
  have before : ∀ j ≤ i - 1, (perMin < count' j ↔ perMin < count j) := fun j low => by rw [others j (by omega)]
  simp only [ControlWindow.hit]
  by_cases passes : n + 1 ≤ perMin
  · have notOver : overIdx ≠ i := by omega
    rw [if_pos passes]
    rw [if_neg notOver] at streak
    refine ⟨⟨_, _, _, rfl, first, none', by omega, overLe, by omega, ?_⟩, by simp; omega, by simp; omega⟩
    rw [if_neg notOver]
    exact streak.congr before
  · have now_ : perMin < count' i := by omega
    rw [if_neg passes]
    -- in both cases the streak now ends in this window
    by_cases already : overIdx = i
    · rw [if_pos already] at streak
      have streak' : Streak (fun j => perMin < count' j) i strikes := streak.congr fun j low => by
        by_cases here : j = i
        · rw [here]
          exact ⟨fun _ => above.mp already, fun _ => now_⟩
        · exact before j (by omega)
      simp only [already, ne_eq, not_true_eq_false, if_false]
      refine ⟨⟨_, _, _, rfl, first, none', by omega, le_rfl, by omega, by simpa using streak'⟩, by simp; omega, ?_⟩
      rw [decide_eq_true_iff]
      exact streak'.three
    · rw [if_neg already] at streak
      have streak' : Streak (fun j => perMin < count' j) i (strikes + 1) := streak.extend before now_
      simp only [already, ne_eq, not_false_eq_true, if_true]
      refine ⟨⟨_, _, _, rfl, first, none', by omega, le_rfl, by omega, by simpa using streak'⟩, by simp; omega, ?_⟩
      rw [decide_eq_true_iff]
      exact streak'.three

end

/-! ## Runs -/

section

variable {perMin : Int} {past : List Event} {t : Time} {l : Limits} {key : String}

def Tracked (perMin : Int) (past : List Event) (t : Time) (l : Limits) : Prop :=
  ∀ key, Tracks perMin (frames past key) (windowOf t) (l.control.lookup key)

variable {now : Time} {es : List Event}

theorem windowOf_eq (start : 0 ≤ t) (last : t ≤ lastTime) : windowOf t = t / controlWindow := by
  have low : (0 : Int) ≤ t := start
  have high : t < (2 ^ 63 : Int) := Int.lt_of_le_sub_one last
  have exact_ : unixNano t = t := Int.bmod_eq_of_le (by omega) (high.trans_le (by decide))
  rw [windowOf, exact_, Int.tdiv_eq_ediv_of_nonneg start]

theorem windowOf_mono (start : 0 ≤ t) (le : t ≤ now) (last : now ≤ lastTime) : windowOf t ≤ windowOf now := by
  rw [windowOf_eq start (le.trans last), windowOf_eq (start.trans le) last]
  exact Int.ediv_le_ediv (by decide) le

theorem frames_concat (past : List Event) (e : Event) (key : String) (i : Int) :
    frames (past ++ [e]) key i = frames past key i + if e.counts key i then 1 else 0 := by
  rw [frames, List.countP_append, List.countP_singleton, frames]

theorem Tracked.later (h : Tracked perMin past t l) (start : 0 ≤ t) (le : t ≤ now) (last : now ≤ lastTime) :
    Tracked perMin past now l :=
  fun key => (h key).later (windowOf_mono start le last)

theorem Tracked.prune (h : Tracked perMin past t l) : Tracked perMin past t (prune l t) := by
  intro key
  have known := h key
  rw [Control.prune, Dict.lookup_keep]
  cases found : l.control.lookup key with
  | none => rwa [found] at known
  | some w =>
    rw [found] at known
    rw [Option.filter_some]
    split
    · exact known
    · next old => exact known.forget (by simp at old; omega)

theorem Tracked.frame (on : 0 < perMin) (start : minute ≤ t) (last : t ≤ lastTime)
    (h : Tracked perMin past t l) (key : String) :
    Tracked perMin (past ++ [⟨t, .frame key⟩]) t (controlAllowed perMin l key t).1 ∧
      ((controlAllowed perMin l key t).2.1 = true ↔ ¬perMin < frames (past ++ [⟨t, .frame key⟩]) key (windowOf t)) ∧
      ((controlAllowed perMin l key t).2.2 = true ↔ perMin < frames (past ++ [⟨t, .frame key⟩]) key (windowOf t) ∧
        perMin < frames (past ++ [⟨t, .frame key⟩]) key (windowOf t - 1) ∧
        perMin < frames (past ++ [⟨t, .frame key⟩]) key (windowOf t - 2)) := by
  have first : 1 ≤ windowOf t := windowOf_mono (t := minute) (by decide) start last
  rw [controlAllowed, if_neg (not_le.mpr on)]
  dsimp only
  generalize pruned : (if bucketPruneThreshold ≤ l.control.entries.length ∧
    controlWindow ≤ t - l.ctlPrune then Control.prune l t else l) = l'
  have h' : Tracked perMin past t l' := by
    rw [← pruned]
    split
    · exact h.prune
    · exact h
  obtain ⟨⟨le, known⟩, here⟩ := (h' key).roll on first
  rw [← current] at le known here
  obtain ⟨⟨n, overIdx, strikes, hit, known'⟩, passes, closes⟩ := known.hit (frames (past ++ [⟨t, .frame key⟩]) key)
    (by simp [frames_concat, Event.counts, here])
    (fun i other => by simp [frames_concat, Event.counts, (here ▸ other).symm])
  rw [here] at passes closes known'
  refine ⟨fun k => ?_, passes, closes⟩
  by_cases own : k = key
  · subst own
    rw [AList.lookup_insert, hit]
    exact ⟨here.le, by rwa [here]⟩
  · have same : frames (past ++ [⟨t, .frame key⟩]) k = frames past k := by
      funext i
      simp [frames_concat, Event.counts, Ne.symm own]
    rw [AList.lookup_insert_ne own, same]
    exact h' k

/-- The counters follow the events, over one event. -/
theorem Tracked.step (on : 0 < perMin) {e : Event} (start : minute ≤ t) (le : t ≤ e.now) (last : e.now ≤ lastTime)
    (h : Tracked perMin past t l) : Tracked perMin (past ++ [e]) e.now (step perMin l e) := by
  have later := h.later ((by decide : (0 : Int) ≤ minute).trans start) le last
  obtain ⟨now, op⟩ := e
  cases op with
  | frame key => exact (later.frame on (start.trans le) last key).1
  | prune =>
    intro key
    have same : frames (past ++ [⟨now, .prune⟩]) key = frames past key := by
      funext i
      simp [frames_concat, Event.counts]
    rw [same]
    exact later.prune key

theorem clock_ge (clocked : Clocked Event.now t es) : t ≤ clock Event.now t es := by
  induction es generalizing t with
  | nil => exact le_rfl
  | cons e es ih => exact clocked.1.trans (ih clocked.2)

/-- And over a run under a clock. -/
theorem Tracked.run (on : 0 < perMin) (start : minute ≤ t) (h : Tracked perMin past t l)
    (clocked : Clocked Event.now t es) (last : clock Event.now t es ≤ lastTime) :
    Tracked perMin (past ++ es) (clock Event.now t es) (Lib.run (Control.step perMin) l es) := by
  induction es generalizing past t l with
  | nil => rwa [List.append_nil]
  | cons e es ih =>
    have early : e.now ≤ lastTime := (clock_ge clocked.2).trans last
    have next := ih (start.trans clocked.1) (h.step on start clocked.1 early) clocked.2 last
    rwa [List.append_assoc] at next

end

/-- From the second minute of 1970 on, and while `UnixNano` is the time, a frame of a key is refused exactly
when the key is over the rate of its window, and closes the connection exactly when this window and the two before
it are over. -/
theorem control_closes_after_three (perMin : Int) {t : Time} (start : minute ≤ t) {es : List Event}
    (clocked : Clocked Event.now t es) (key : String) {now : Time} (later : clock Event.now t es ≤ now)
    (last : now ≤ lastTime) :
    ((controlAllowed perMin (run (step perMin) {} es) key now).2.1 = true ↔
      ¬Over perMin (es ++ [⟨now, .frame key⟩]) key (windowOf now)) ∧
    ((controlAllowed perMin (run (step perMin) {} es) key now).2.2 = true ↔
      ∀ j ∈ [windowOf now, windowOf now - 1, windowOf now - 2], Over perMin (es ++ [⟨now, .frame key⟩]) key j) := by
  by_cases on : 0 < perMin
  · have empty : Tracked perMin [] t {} := fun _ _ _ => rfl
    have begun : minute ≤ clock Event.now t es := start.trans (clock_ge clocked)
    have tracked := (empty.run on start clocked (later.trans last)).later
      ((by decide : (0 : Int) ≤ minute).trans begun) later last
    obtain ⟨-, passes, closes⟩ := tracked.frame on (begun.trans later) last key
    simpa [Over, on] using And.intro passes closes
  · have off : controlAllowed perMin (run (step perMin) {} es) key now = (run (step perMin) {} es, true, false) :=
      if_pos (not_lt.mp on)
    simp only [off, Over, on, false_and, not_false_eq_true, iff_self, true_and, Bool.false_eq_true, false_iff]
    exact fun all => all _ (List.mem_cons_self ..)

theorem control_closes_in_third_window :
    (controlAllowed 1 (run (step 1) {} ([60, 60, 120, 120, 180].map fun s => ⟨s * second, .frame "k"⟩)) "k"
      (180 * second)).2.2 = true :=
  (control_closes_after_three 1 (t := minute) le_rfl (by decide) "k" (by decide) (by decide)).2.mpr (by decide)

/-- In the first minute of 1970 the window is 0, which a new state takes for one it has counted. -/
theorem first_minute_not_counted : let es : List Event := [0, 0, 60, 60, 120].map fun s => ⟨s * second, .frame "k"⟩
    Clocked Event.now 0 es ∧
    (∀ j ∈ [windowOf (120 * second), windowOf (120 * second) - 1, windowOf (120 * second) - 2],
      Over 1 (es ++ [⟨120 * second, .frame "k"⟩]) "k" j) ∧
    (controlAllowed 1 (run (step 1) {} es) "k" (120 * second)).2.2 = false := by
  decide

end Agentnet.Relay.Control
