import Agentnet.Basic
import Agentnet.Lib.Dict
import Agentnet.Lib.Run

/-! The fetch server's memory of requests: the window of a request's time, `markSeen` and what `Flush`
forgets, with any number of workers. -/

namespace Agentnet.Capability.Fetch

open Lib

def tsPast : Time := 30 * second
def tsFuture : Time := 10 * minute
def reqRemember : Time := 11 * minute
def maxSeenPerPeer : Nat := 16384

/-- Per peer, the requests with the time each was first seen. -/
abbrev Seen := Dict PeerKey (Dict String Time)

def reqsOf (seen : Seen) (peer : PeerKey) : Dict String Time := (seen.lookup peer).getD ∅

def recent (now : Time) (_ : String) (t : Time) : Bool := now - t ≤ reqRemember

/-- The old requests of a full store go. -/
def makeRoom (reqs : Dict String Time) (now : Time) : Dict String Time :=
  if maxSeenPerPeer ≤ reqs.entries.length then reqs.keep (recent now) else reqs

def markSeen (seen : Seen) (peer : PeerKey) (req : String) (now : Time) : Bool × Seen :=
  let reqs := reqsOf seen peer
  if (reqs.lookup req).any (recent now req) then (false, seen.insert peer reqs)
  else
    let reqs := makeRoom reqs now
    if maxSeenPerPeer ≤ reqs.entries.length then (false, seen.insert peer reqs)
    else (true, seen.insert peer (reqs.insert req now))

def flush (seen : Seen) (now : Time) : Seen :=
  (seen.mapValues fun _ reqs => reqs.keep (recent now)).keep fun _ reqs => reqs.entries ≠ []

def inWindow (ts now : Time) : Bool := !decide (ts < now - tsPast) && !decide (now + tsFuture < ts)

structure Message where
  peer : PeerKey
  req : String
  ts : Time
  deriving DecidableEq

/-- A request that a worker has found inside the window, by the clock it read then. -/
structure Job where
  message : Message
  now : Time
  deriving DecidableEq

structure Server where
  seen : Seen := ∅
  jobs : Dict Nat Job := ∅
  /-- The requests that passed `markSeen`, in order. -/
  passed : List Message := []

inductive Op where
  /-- A worker reads the clock for a request and checks its time. -/
  | check (worker : Nat) (m : Message)
  /-- The grant is good: `markSeen`, at the time read before. -/
  | mark (worker : Nat)
  | refuse (worker : Nat)
  /-- `Flush`, which read the clock `lag` ago. -/
  | flush (lag : Nat)

/-- An operation and the server's clock. -/
structure Event where
  now : Time
  op : Op

/-- One event: workers check, mark and finish on their own. -/
def step (s : Server) (e : Event) : Server :=
  match e.op with
  | .check worker m => if inWindow m.ts e.now then { s with jobs := s.jobs.insert worker ⟨m, e.now⟩ } else s
  | .mark worker =>
    match s.jobs.lookup worker with
    | none => s
    | some j =>
      let (new, seen) := markSeen s.seen j.message.peer j.message.req j.now
      { seen, jobs := s.jobs.erase worker, passed := if new then s.passed ++ [j.message] else s.passed }
  | .refuse worker => { s with jobs := s.jobs.erase worker }
  | .flush lag => { s with seen := flush s.seen (e.now - lag) }

/-! ## What is remembered -/

section

variable {seen : Seen} {peer p : PeerKey} {req r : String} {now t : Time}

theorem reqs_insert (seen : Seen) (peer p : PeerKey) (reqs : Dict String Time) :
    reqsOf (seen.insert peer reqs) p = if p = peer then reqs else reqsOf seen p := by
  by_cases same : p = peer
  · subst same
    simp [reqsOf]
  · simp [reqsOf, AList.lookup_insert_ne same, same]

theorem lookup_recent {reqs : Dict String Time} (known : reqs.lookup r = some t) (fresh : ¬reqRemember < now - t) :
    (reqs.keep (recent now)).lookup r = some t := by
  have passes : recent now r t = true := decide_eq_true (not_lt.mp fresh)
  rw [Dict.lookup_keep, known, Option.filter_some, if_pos passes]

/-- A request that is forgotten was seen more than `reqRemember` before. -/
theorem markSeen_keeps (known : (reqsOf seen p).lookup r = some t) :
    (reqsOf (markSeen seen peer req now).2 p).lookup r = some t ∨ reqRemember < now - t := by
  by_cases old : reqRemember < now - t
  · exact .inr old
  · have kept : p = peer → (makeRoom (reqsOf seen peer) now).lookup r = some t := by
      rintro rfl
      rw [makeRoom]
      split
      · exact lookup_recent known old
      · exact known
    left
    rw [markSeen]
    dsimp only
    split
    · rw [reqs_insert]
      split <;> grind
    · next unknown =>
      have other : p = peer → r ≠ req := by
        rintro rfl rfl
        exact unknown (by simpa [known, recent] using not_lt.mp old)
      split <;> (rw [reqs_insert]; split <;> grind [AList.lookup_insert_ne])

theorem markSeen_new (new : (markSeen seen peer req now).1 = true) :
    (∀ t, (reqsOf seen peer).lookup req = some t → reqRemember < now - t) ∧
      (reqsOf (markSeen seen peer req now).2 peer).lookup req = some now := by
  rw [markSeen] at new ⊢
  dsimp only at new ⊢
  split at new
  · cases new
  · next unknown =>
    rw [if_neg unknown]
    refine ⟨fun t known => ?_, ?_⟩
    · by_contra fresh
      exact unknown (by simpa [known, recent] using not_lt.mp fresh)
    · split at new
      · cases new
      · next room => rw [if_neg room, reqs_insert, if_pos rfl, AList.lookup_insert]

theorem flush_keeps (now : Time) (known : (reqsOf seen p).lookup r = some t) :
    (reqsOf (flush seen now) p).lookup r = some t ∨ reqRemember < now - t := by
  by_cases old : reqRemember < now - t
  · exact .inr old
  · left
    cases found : seen.lookup p with
    | none => simp [reqsOf, found] at known
    | some reqs =>
      have stored : reqs.lookup r = some t := by simpa [reqsOf, found] using known
      have kept := lookup_recent stored old
      have some_ : (reqs.keep (recent now)).entries ≠ [] := by
        intro empty
        have mem := AList.mem_lookup_iff.mp kept
        rw [empty] at mem
        cases mem
      have flushed : (flush seen now).lookup p = some (reqs.keep (recent now)) := by
        rw [flush, Dict.lookup_keep, Dict.lookup_mapValues, found, Option.map_some, Option.filter_some,
          if_pos (decide_eq_true some_)]
      rw [reqsOf, flushed]
      exact kept

/-- A full store refuses. -/
theorem markSeen_full (full : maxSeenPerPeer ≤ ((reqsOf seen peer).keep (recent now)).entries.length) :
    (markSeen seen peer req now).1 = false := by
  have more : maxSeenPerPeer ≤ (reqsOf seen peer).entries.length := full.trans List.filter_sublist.length_le
  rw [markSeen]
  dsimp only
  split
  · rfl
  · rw [makeRoom, if_pos more, if_pos full]

end

/-! ## Runs -/

/-- How long after it read the clock a worker may call `markSeen`. -/
def grace : Time := reqRemember - tsPast - tsFuture

def Prompt (s : Server) (e : Event) : Prop :=
  ∀ worker j, e.op = .mark worker → s.jobs.lookup worker = some j → e.now ≤ j.now + grace

/-- The invariant: what has passed is remembered for as long as it could pass again. -/
structure Sound (now : Time) (s : Server) : Prop where
  jobs : ∀ worker j, s.jobs.lookup worker = some j → j.now ≤ now ∧ inWindow j.message.ts j.now = true
  /-- No prompt worker finds the request in its window any more, or it is remembered. -/
  passed : ∀ m ∈ s.passed, m.ts + tsPast + grace < now ∨ ∃ t, (reqsOf s.seen m.peer).lookup m.req = some t ∧
    m.ts - tsFuture ≤ t
  once : s.passed.Nodup

theorem Sound.later {now now' : Time} {s : Server} (h : Sound now s) (le : now ≤ now') : Sound now' s :=
  ⟨fun worker j found => ⟨(h.jobs worker j found).1.trans le, (h.jobs worker j found).2⟩,
    fun m mem => (h.passed m mem).imp_left fun past => lt_of_lt_of_le past le, h.once⟩

section

variable {ts t now clock : Int}

/-- What is forgotten by a time of the clock is out of its window for every prompt worker. -/
theorem forgotten (late : ts - tsFuture ≤ t) (old : reqRemember < now - t) (le : now ≤ clock) :
    ts + tsPast + grace < clock := by
  have old := Int.add_one_le_of_lt old
  simp only [grace]
  omega

theorem not_past (early : now - tsPast ≤ ts) (soon : clock ≤ now + grace) : ¬ts + tsPast + grace < clock := by omega

theorem still_recent (late : ts - tsFuture ≤ t) (early : now - tsPast ≤ ts) : ¬reqRemember < now - t := by
  intro old
  have old := Int.add_one_le_of_lt old
  have total : (tsPast : Int) + tsFuture ≤ reqRemember := by decide
  have total := Int.sub_nonneg_of_le total
  omega

end

/-- The invariant over one event in time. -/
theorem Sound.step {s : Server} {e : Event} (h : Sound e.now s) (prompt : Prompt s e) : Sound e.now (step s e) := by
  obtain ⟨jobs, passed, once⟩ := h
  obtain ⟨now, op⟩ := e
  cases op with
  | check worker m =>
    rw [Fetch.step]
    dsimp only
    split
    · next inside =>
      refine ⟨fun w j found => ?_, passed, once⟩
      obtain ⟨-, rfl⟩ | ⟨-, old⟩ := Dict.lookup_insert_cases found
      · exact ⟨le_rfl, inside⟩
      · exact jobs w j old
    · exact ⟨jobs, passed, once⟩
  | refuse worker => exact ⟨fun w j found => jobs w j (Dict.lookup_of_erase found).2, passed, once⟩
  | flush lag =>
    refine ⟨jobs, fun m mem => ?_, once⟩
    obtain past | ⟨t, known, late⟩ := passed m mem
    · exact .inl past
    · obtain kept | old := flush_keeps (now - lag) known
      · exact .inr ⟨t, kept, late⟩
      · exact .inl (forgotten late old (Int.sub_le_self now (Int.natCast_nonneg lag)))
  | mark worker =>
    rw [Fetch.step]
    dsimp only
    cases found : s.jobs.lookup worker with
    | none => exact ⟨jobs, passed, once⟩
    | some j =>
      obtain ⟨le, inside⟩ := jobs worker j found
      have soon := prompt worker j rfl found
      have window : j.now - tsPast ≤ j.message.ts ∧ j.message.ts ≤ j.now + tsFuture := by
        simpa [inWindow] using inside
      have jobs' : ∀ w i, (s.jobs.erase worker).lookup w = some i →
          i.now ≤ now ∧ inWindow i.message.ts i.now = true :=
        fun w i here => jobs w i (Dict.lookup_of_erase here).2
      have kept : ∀ m ∈ s.passed, m.ts + tsPast + grace < now ∨
          ∃ t, (reqsOf (markSeen s.seen j.message.peer j.message.req j.now).2 m.peer).lookup m.req = some t ∧
          m.ts - tsFuture ≤ t := by
        intro m mem
        obtain past | ⟨t, known, late⟩ := passed m mem
        · exact .inl past
        · exact (markSeen_keeps known).elim (fun kept => .inr ⟨t, kept, late⟩) fun old => .inl (forgotten late old le)
      dsimp only
      split
      · next new =>
        obtain ⟨unknown, marked⟩ := markSeen_new new
        have first : j.message ∉ s.passed := by
          intro mem
          obtain past | ⟨t, known, late⟩ := passed j.message mem
          · exact not_past window.1 soon past
          · exact still_recent late window.1 (unknown t known)
        refine ⟨jobs', fun m mem => ?_, ?_⟩
        · obtain old | new := List.mem_append.mp mem
          · exact kept m old
          · obtain rfl := List.mem_singleton.mp new
            exact .inr ⟨j.now, marked, sub_le_iff_le_add.mpr window.2⟩
        · exact List.nodup_append.mpr ⟨once, List.nodup_singleton _, by grind⟩
      · exact ⟨jobs', kept, once⟩

/-- Where every worker calls `markSeen` at most `grace` after it read the clock, a request passes at most once;
and a store that is full of requests that are not yet forgotten refuses. -/
theorem request_passes_once {t : Time} {es : List Event} (clocked : Clocked Event.now t es)
    (prompt : Follows step Prompt {} es) : (run step {} es).passed.Nodup ∧
      ∀ seen peer req now, (maxSeenPerPeer ≤ ((reqsOf seen peer).keep (recent now)).entries.length →
        (markSeen seen peer req now).1 = false) ∧
        ∀ p r t, (reqsOf seen p).lookup r = some t →
        (reqsOf (markSeen seen peer req now).2 p).lookup r = some t ∨ reqRemember < now - t := by
  have start : Sound t {} := ⟨(by simp), (by simp), List.nodup_nil⟩
  have sound :=
    run_clocked_of (motive := Sound) (fun _ s e h le prompt => (h.later le).step prompt) start clocked prompt
  exact ⟨sound.once, fun seen peer req now => ⟨markSeen_full, fun p r t => markSeen_keeps⟩⟩

/-- The peer's clock is ten minutes ahead, and it sends the request twice. -/
def early : Message := ⟨"p", "f-00000000000000000000000000000000", 600 * second⟩

theorem second_copy_refused :
    (run step {} [⟨0, .check 1 early⟩, ⟨0, .mark 1⟩, ⟨630 * second, .check 2 early⟩, ⟨631 * second, .flush 0⟩,
      ⟨631 * second, .mark 2⟩]).passed.Nodup :=
  (request_passes_once (t := 0) (by decide) (by
    simp only [Follows, Prompt, reduceCtorEq, false_implies, implies_true, true_and, and_true, Op.mark.injEq]
    refine ⟨?_, ?_⟩ <;> (rintro w j rfl found; revert found; revert j; decide))).1

/-- The second worker reads its clock at the end of the window, and `Flush` comes before its `markSeen`. -/
theorem slow_worker_runs_twice :
    (run step {} [⟨0, .check 1 early⟩, ⟨0, .mark 1⟩, ⟨630 * second, .check 2 early⟩, ⟨661 * second, .flush 0⟩,
      ⟨661 * second, .mark 2⟩]).passed = [early, early] := by
  decide +kernel

end Agentnet.Capability.Fetch
