import Mathlib.Tactic.Linarith
import Agentnet.Basic
import Agentnet.Lib.Run

/-! The grace after downtime: whether debate timeouts may be applied. A suspension of the machine moves the wall
clock and leaves the monotonic one. -/

namespace Agentnet.Debate

open Lib

def debateTimeoutGrace : Int := 120 * second
def debateResumeGap : Int := 60 * second

structure Gate where
  mono : Time := 0
  wall : Time := 0
  /-- The last detected resume, by the monotonic clock. -/
  resumeAt : Option Time := none
  /-- The wall time at which the last tick ended. -/
  lastTick : Option Time := none
  sweeping : Bool := false
  lastSeen : Time := 0
  /-- A tick has made its resume test and not yet begun its sweep. -/
  tested : Bool := false
  client : Bool := false
  /-- When the relay connection began, if it is reported as connected. -/
  since : Option Time := none
  resumes : Nat := 0
  redials : Nat := 0
deriving DecidableEq

/-- The resume test. It starts a new grace and asks for a re-dial. -/
def checkResume (g : Gate) : Bool × Gate :=
  let ref := if g.sweeping then some g.lastSeen else g.lastTick
  let g := if g.sweeping then { g with lastSeen := g.wall } else g
  match ref with
  | none => (false, g)
  | some ref =>
    if g.wall - ref ≤ debateResumeGap then (false, g)
    else
      (true, { g with
        resumeAt := some g.mono, lastTick := some g.wall, resumes := g.resumes + 1, redials :=
          if g.client then g.redials + 1 else g.redials })

def ready (noRelay : Bool) (g : Gate) : Bool × Gate :=
  let (fired, g) := checkResume g
  if noRelay then (true, g)
  else if fired || !g.client then (false, g)
  else
    match g.since with
    | none => (false, g)
    | some since => (g.mono - max since (g.resumeAt.getD since) ≥ debateTimeoutGrace, g)

inductive Event where
  | pass (d : Nat)
  | suspend (d : Nat)
  | setClient
  | relay (since : Option Time)
  /-- A tick starts with the resume test, begins its sweep and ends. -/
  | tick
  | sweep
  | finish
  /-- A call of `Ready`, from the sweep or from IPC. -/
  | ready

/-- One event; only `pass` and `suspend` move the clocks. -/
def step (noRelay : Bool) (g : Gate) : Event → Gate
  | .pass d => { g with mono := g.mono + d, wall := g.wall + d }
  | .suspend d => { g with wall := g.wall + d }
  | .setClient => { g with client := true }
  | .relay since => { g with since := since }
  | .tick => if g.tested || g.sweeping then g else { (checkResume g).2 with tested := true }
  | .sweep => if g.tested then { g with tested := false, sweeping := true, lastSeen := g.wall } else g
  | .finish => if g.sweeping then { g with sweeping := false, lastTick := some g.wall } else g
  | .ready => (ready noRelay g).2

variable {g : Gate} {noRelay : Bool}

/-! ## A suspension that a test sees -/

/-- No reference time lies ahead of the clock. -/
def Past (g : Gate) : Prop := (∀ t, g.lastTick = some t → t ≤ g.wall) ∧ (g.sweeping = true → g.lastSeen ≤ g.wall)

/-- A resume was detected at `t` or later, with the re-dials it asked for. -/
def Resumed (t : Time) (client : Bool) (redials : Nat) (g : Gate) : Prop :=
  t ≤ g.mono ∧ (∃ r, g.resumeAt = some r ∧ t ≤ r) ∧ (client = true → redials < g.redials)

theorem ready_snd (noRelay : Bool) (g : Gate) : (ready noRelay g).2 = (checkResume g).2 := by
  simp only [ready]
  repeat' split
  all_goals rfl

theorem past_checkResume (h : Past g) : Past (checkResume g).2 := by
  obtain ⟨tick, seen⟩ := h
  unfold checkResume
  grind [Past]

theorem past_step (h : Past g) (e : Event) : Past (step noRelay g e) := by
  have h' := past_checkResume h
  obtain ⟨tick, seen⟩ := h
  cases e with
  | ready => simpa only [step, ready_snd] using h'
  | tick =>
    simp only [step]
    split
    · exact ⟨tick, seen⟩
    · exact h'
  | pass d | suspend d => grind [step, Past]
  | setClient | relay since => exact ⟨tick, seen⟩
  | sweep | finish => grind [step, Past]

variable {client : Bool} {n : Nat} {t ref : Time} {e : Event} {es : List Event} {w : Watch}

theorem resumed_checkResume (h : Resumed t client n g) : Resumed t client n (checkResume g).2 := by
  obtain ⟨mono, ⟨r, at_, le⟩, redials⟩ := h
  unfold checkResume Resumed
  grind

theorem resumed_step (h : Resumed t client n g) (e : Event) : Resumed t client n (step noRelay g e) := by
  have h' := resumed_checkResume h
  cases e with
  | ready => simpa only [step, ready_snd] using h'
  | tick =>
    simp only [step]
    split
    · exact h
    · exact h'
  | pass d => exact ⟨le_trans h.1 (by simp [step]), h.2⟩
  | suspend d | setClient | relay since => exact h
  | sweep | finish =>
    simp only [step]
    split <;> exact h

/-- Within the grace of a resume no call answers yes. -/
theorem grace_of_ready (h : Resumed t client n g) (yes : (ready false g).1 = true) :
    debateTimeoutGrace ≤ g.mono - t := by
  have mono : (checkResume g).2.mono = g.mono := by unfold checkResume; grind
  obtain ⟨-, ⟨r, at_, le⟩, -⟩ := resumed_checkResume h
  unfold ready at yes
  grind

/-- The test sees a suspension behind its reference time. -/
theorem checkResume_fires (since : (if g.sweeping then some g.lastSeen else g.lastTick) = some ref)
    (gap : debateResumeGap < g.wall - ref) :
    (checkResume g).1 = true ∧ (checkResume g).2.resumeAt = some g.mono ∧ (checkResume g).2.mono = g.mono ∧
      (g.client = true → g.redials < (checkResume g).2.redials) := by
  unfold checkResume
  grind

/-- Nothing of the gate runs. -/
def Event.Outside : Event → Prop
  | .pass _ | .suspend _ | .setClient | .relay _ => True
  | _ => False

/-- The event makes the resume test. -/
def Event.Tests (g : Gate) : Event → Prop
  | .ready => True
  | .tick => g.tested = false ∧ g.sweeping = false
  | _ => False

/-- What the clocks and the connection do leaves the references alone. -/
structure Kept (g g' : Gate) : Prop where
  mono : g.mono ≤ g'.mono
  wall : g.wall ≤ g'.wall
  lastTick : g'.lastTick = g.lastTick
  sweeping : g'.sweeping = g.sweeping
  lastSeen : g'.lastSeen = g.lastSeen
  redials : g'.redials = g.redials
  client : g.client = true → g'.client = true

theorem kept_step (outside : e.Outside) : Kept g (step noRelay g e) := by
  cases e with
  | pass d => exact ⟨by simp [step], by simp [step], rfl, rfl, rfl, rfl, id⟩
  | suspend d => exact ⟨le_refl _, by simp [step], rfl, rfl, rfl, rfl, id⟩
  | setClient => exact ⟨le_refl _, le_refl _, rfl, rfl, rfl, rfl, fun _ => rfl⟩
  | relay since => exact ⟨le_refl _, le_refl _, rfl, rfl, rfl, rfl, id⟩
  | tick | sweep | finish | ready => cases outside

theorem kept_run (outside : ∀ e ∈ es, e.Outside) : Kept g (run (step noRelay) g es) := by
  induction es generalizing g with
  | nil => exact ⟨le_refl _, le_refl _, rfl, rfl, rfl, rfl, id⟩
  | cons e es ih =>
    obtain ⟨here, rest⟩ := List.forall_mem_cons.mp outside
    have first : Kept g (step noRelay g e) := kept_step here
    have later : Kept (step noRelay g e) (run (step noRelay) g (e :: es)) := ih rest
    exact ⟨le_trans first.mono later.mono, le_trans first.wall later.wall, later.lastTick.trans first.lastTick,
      later.sweeping.trans first.sweeping, later.lastSeen.trans first.lastSeen, later.redials.trans first.redials,
      fun set => later.client (first.client set)⟩

/-- While a reference exists, a suspension after it is behind it at the next test. -/
theorem exists_reference {d : Nat} {g' : Gate} (past : Past g) (gap : debateResumeGap < d)
    (known : g.sweeping = false → g.lastTick ≠ none) (kept : Kept (step noRelay g (.suspend d)) g') :
    ∃ ref, (if g'.sweeping then some g'.lastSeen else g'.lastTick) = some ref ∧ debateResumeGap < g'.wall - ref := by
  have wall : g.wall + d ≤ g'.wall := kept.wall
  rw [kept.sweeping, kept.lastSeen, kept.lastTick]
  cases sweeping : g.sweeping with
  | true =>
    have seen := past.2 sweeping
    exact ⟨g.lastSeen, by simp [step, sweeping], by linarith⟩
  | false =>
    obtain ⟨ref, last⟩ := Option.ne_none_iff_exists'.mp (known sweeping)
    have before := past.1 ref last
    exact ⟨ref, by simp [step, sweeping, last], by linarith⟩

theorem resumed_of_tests (tests : e.Tests g)
    (since : (if g.sweeping then some g.lastSeen else g.lastTick) = some ref) (gap : debateResumeGap < g.wall - ref) :
    Resumed g.mono g.client g.redials (step noRelay g e) := by
  obtain ⟨-, at_, mono, redials⟩ := checkResume_fires since gap
  have fired : Resumed g.mono g.client g.redials (checkResume g).2 := ⟨mono.ge, ⟨g.mono, at_, le_refl _⟩, redials⟩
  cases e with
  | ready => simpa only [step, ready_snd] using fired
  | tick =>
    obtain ⟨tested, sweeping⟩ := tests
    simpa [step, tested, sweeping, Resumed] using fired
  | pass d | suspend d | setClient | relay since | sweep | finish => cases tests

theorem not_ready_of_fires (fires : (checkResume g).1 = true) : (ready false g).1 = false := by
  simp [ready, fires]

/-! ## Prompt observations -/

/-- The wall times at which the gate was last observed, kept beside the gate. -/
structure Watch where
  wall : Time
  ended : Option Time := none
  /-- The start of the running sweep, or the last `Ready` in it. -/
  seen : Option Time := none
  tested : Bool := false

def Watch.next (w : Watch) : Event → Watch
  | .pass d | .suspend d => { w with wall := w.wall + d }
  | .setClient | .relay _ => w
  | .tick => { w with tested := w.tested || w.seen.isNone }
  | .sweep => if w.tested then { w with tested := false, seen := some w.wall } else w
  | .finish => if w.seen.isSome then { w with seen := none, ended := some w.wall } else w
  | .ready => if w.seen.isSome then { w with seen := some w.wall } else w

/-- A tick starts within the gap of the last one's end. A `Ready` follows the last observation of its sweep within
the gap, and outside a sweep the last tick's end. -/
def Watch.Prompt (w : Watch) : Event → Prop
  | .tick => w.tested = false → w.seen = none → ∀ t, w.ended = some t → w.wall - t ≤ debateResumeGap
  | .ready => ∀ t, (w.seen <|> w.ended) = some t → w.wall - t ≤ debateResumeGap
  | _ => True

/-- The gate's references are the observed times, and nothing was detected. -/
structure Watched (w : Watch) (g : Gate) : Prop where
  wall : g.wall = w.wall
  lastTick : g.lastTick = w.ended
  sweeping : g.sweeping = w.seen.isSome
  lastSeen : ∀ t, w.seen = some t → g.lastSeen = t
  tested : g.tested = w.tested
  resumes : g.resumes = 0

/-- A prompt look at the clocks finds no resumption. -/
theorem watched_checkResume (h : Watched w g) (prompt : w.Prompt .ready) :
    Watched (w.next .ready) (checkResume g).2 := by
  obtain ⟨wall, lastTick, sweeping, lastSeen, tested, resumes⟩ := h
  unfold checkResume
  cases seen : w.seen with
  | none =>
    cases ended : w.ended with
    | none => constructor <;> simp [Watch.next, *]
    | some t =>
      have near := prompt t (by simp [seen, ended])
      constructor <;> simp [Watch.next, *]
  | some t =>
    have near := prompt t (by simp [seen])
    constructor <;> simp [Watch.next, *]

/-- What the gate knows of the clocks, over one prompt event. -/
theorem watched_step (h : Watched w g) (e : Event) (prompt : w.Prompt e) : Watched (w.next e) (step noRelay g e) := by
  obtain ⟨wall, lastTick, sweeping, lastSeen, tested, resumes⟩ := id h
  cases e with
  | ready => simpa only [step, ready_snd] using watched_checkResume h prompt
  | tick =>
    simp only [step]
    split
    · rename_i busy
      have same : g.tested = (w.tested || w.seen.isNone) := by
        cases seen : w.seen <;> simp_all
      exact ⟨wall, lastTick, sweeping, lastSeen, same, resumes⟩
    · rename_i free
      obtain ⟨tested', seen⟩ : w.tested = false ∧ w.seen = none := by simp_all
      have checked := watched_checkResume h fun t at_ => prompt tested' seen t (by simpa [seen] using at_)
      rw [Watch.next, seen] at checked
      obtain ⟨wall, lastTick, sweeping, lastSeen, -, resumes⟩ := checked
      exact ⟨wall, lastTick, sweeping, lastSeen, by simp [Watch.next, seen], resumes⟩
  | pass d | suspend d => exact { h with wall := by simp [step, Watch.next, h.wall] }
  | setClient | relay since => exact { h with }
  | sweep | finish => grind [step, Watch.next, Watched]

theorem watched_run (h : Watched w g) (prompt : Follows Watch.next Watch.Prompt w es) :
    (run (step noRelay) g es).resumes = 0 := by
  induction es generalizing w g with
  | nil => exact h.resumes
  | cons e es ih => exact ih (watched_step h e prompt.1) prompt.2

/-- A suspension that is followed by a resume test, while a tick runs its sweep or after one has ended, delays every
timeout by the grace and has the relay dialled anew. Prompt observations are never taken for a resume, however long
a sweep takes. -/
theorem no_timeout_after_suspension (mono wall : Time) : let start : Gate := { mono := mono, wall := wall }
    (∀ es (d : Nat), debateResumeGap < d → let s := run (step false) start es
      let t := step false s (.suspend d)
      (s.sweeping = false → s.lastTick ≠ none) → ∀ gs : List Event, (∀ e ∈ gs, e.Outside) →
        (ready false (run (step false) t gs)).1 = false ∧
        ∀ e hs, e.Tests (run (step false) t gs) → let u := run (step false) t (gs ++ e :: hs)
          (ready false u).1 = true → debateTimeoutGrace ≤ u.mono - t.mono ∧
          (t.client = true → t.redials < u.redials)) ∧
    ∀ noRelay es, Follows Watch.next Watch.Prompt { wall := wall } es →
    (run (step noRelay) start es).resumes = 0 := by
  intro start
  constructor
  · intro es d gap s t known gs outside
    have fresh : Past start := ⟨by rintro t ⟨⟩, by rintro ⟨⟩⟩
    have past : Past s := run_invariant (motive := Past) (fun _ e h => past_step h e) fresh es
    let v := run (step false) t gs
    have kept : Kept t v := kept_run outside
    obtain ⟨ref, since, behind⟩ := exists_reference past gap known kept
    refine ⟨not_ready_of_fires (checkResume_fires since behind).1, ?_⟩
    intro e hs tests u yes
    have resumed : Resumed v.mono v.client v.redials u := by
      simp only [u, run_append, run_cons]
      exact run_invariant (motive := Resumed v.mono v.client v.redials) (fun _ e h => resumed_step h e)
        (resumed_of_tests tests since behind) hs
    have grace := grace_of_ready resumed yes
    have started := kept.mono
    exact ⟨by linarith, fun set => kept.redials ▸ resumed.2.2 (kept.client set)⟩
  · intro noRelay es prompt
    exact watched_run ⟨rfl, rfl, rfl, by rintro t ⟨⟩, rfl, rfl⟩ prompt

/-- The relay is connected and a tick has ended; after an hour of suspension `Ready` answers no until the grace is
over. -/
theorem no_timeout_after_hour :
    let s := run (step false) {} [.setClient, .relay (some 0), .pass 200000000000, .tick, .sweep, .finish]
    let t := step false s (.suspend 3600000000000)
    (ready false t).1 = false ∧
    ((ready false (run (step false) t [.ready, .relay (some 0), .pass 200000000000])).1 = true →
      debateTimeoutGrace ≤ (run (step false) t [.ready, .relay (some 0), .pass 200000000000]).mono - t.mono) := by
  intro s t
  obtain ⟨first, later⟩ :=
    (no_timeout_after_suspension 0 0).1 [.setClient, .relay (some 0), .pass 200000000000, .tick, .sweep, .finish]
    3600000000000 (by decide) (fun _ => by decide) [] (by simp)
  exact ⟨first, fun yes => (later .ready [.relay (some 0), .pass 200000000000] trivial yes).1⟩

/-- A suspension after the last `Ready` of a sweep is overwritten by the tick's end: a call right after it answers
yes. -/
theorem suspension_before_tick_end :
    let s := run (step false) {} [.setClient, .relay (some 0), .pass 200000000000, .tick, .sweep, .ready]
    let t := step false s (.suspend 3600000000000)
    let u := step false t .finish
    (ready false u).1 = true ∧ u.mono = t.mono ∧ u.redials = 0 := by
  decide

end Agentnet.Debate
