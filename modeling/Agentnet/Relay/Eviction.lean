import Mathlib.Data.Finset.Sort
import Agentnet.Relay.Budget

/-! `pick`: the connection that is evicted for a charge that does not fit. -/

namespace Agentnet.Relay.Budget

open Lib

/-- What a ledger knows of times. `none` is the zero time. -/
structure Times where
  /-- When the frame that is being read started. -/
  readStart : ConnId → Option Time := fun _ => none
  /-- When each frame of the outbound buffer was pushed, the oldest first. -/
  pushed : ConnId → List Time := fun _ => []

def evictStaleBase : Time := 2 * second
def evictMinRate : Int := 512 * 2 ^ 10

def evictStale (held : Int) : Time := evictStaleBase + held * second / evictMinRate

/-- `older`: a zero time is the newest. -/
def older : Option Time → Option Time → Bool
  | none, _ => false
  | some _, none => true
  | some a, some b => a < b

/-- `Before`: the zero time is the first. -/
def before : Option Time → Option Time → Bool
  | _, none => false
  | none, some _ => true
  | some a, some b => a < b

/-- The map orders in which the loops of `pick` run. -/
structure MapOrder where
  names : List String
  conns : List ConnId

/-- Every one of `keys` once, those of `order` first. -/
def arrange {α : Type} [DecidableEq α] (order keys : List α) : List α :=
  (order.filter fun k => k ∈ keys).dedup ++ keys.filter fun k => k ∉ order

def Ledger.holdOf (l : Ledger) (c : ConnId) (k : BudgetKind) : Int := ((l.conns.lookup c).map (·.hold k)).getD 0

def Ledger.prefixOf (l : Ledger) (c : ConnId) : String := ((l.conns.lookup c).map Conn.netPrefix).getD ""

def Ledger.usedBy (l : Ledger) (k : BudgetKind) (name : String) : Int :=
  (((l.pools k).prefixes.lookup name).map PrefixUse.used).getD 0

namespace Times

variable (x : Times)

/-- Since when a connection holds what it holds. -/
def age (k : BudgetKind) (c : ConnId) : Option Time :=
  match k with
  | .read => x.readStart c
  | .outbound | .ephemeral => (x.pushed c).head?

/-- The age of a requester: now, where nothing of it waits. -/
def requesterAge (k : BudgetKind) (r : ConnId) (now : Time) : Option Time :=
  if k ≠ .read ∧ x.age k r = none then some now else x.age k r

def oldest (o : MapOrder) (k : BudgetKind) (u : PrefixUse) : Option Time :=
  ((arrange o.conns (u.holders.sort (· ≤ ·))).map (x.age k)).foldl (fun t a => if older a t then a else t) none

def eligible (l : Ledger) (c r : ConnId) (k : BudgetKind) (ownPrefix : Bool) (now : Time) : Bool :=
  match k with
  | .read => !ownPrefix || before (x.readStart c) (x.readStart r)
  | .outbound | .ephemeral =>
    match x.pushed c with
    | [] => false
    | first :: _ => evictStale (l.holdOf c .outbound + l.holdOf c .ephemeral) ≤ now - first

end Times

/-- The prefix that holds the most so far. The code keeps the age of the best one between ties. -/
def heavier (x : Times) (o : MapOrder) (k : BudgetKind) (best : Option (String × PrefixUse))
    (p : String × PrefixUse) :
    Option (String × PrefixUse) :=
  match best with
  | none => some p
  | some b =>
    if b.2.used < p.2.used then some p
    else if p.2.used = b.2.used ∧ older (x.oldest o k p.2) (x.oldest o k b.2) then some p
    else some b

def heaviest (l : Ledger) (x : Times) (o : MapOrder) (k : BudgetKind) : Option (String × PrefixUse) :=
  let prefixes := (l.pools k).prefixes
  ((arrange o.names prefixes.keys).filterMap fun name => (prefixes.lookup name).map (name, ·)).foldl
    (heavier x o k) none

/-- The prefix that pays. -/
def payer (l : Ledger) (x : Times) (o : MapOrder) (r : ConnId) (k : BudgetKind) (n : Int)
    (above : Bool) (now : Time) :
    Option (String × PrefixUse) :=
  let own := l.prefixOf r
  if above then ((l.pools k).prefixes.lookup own).map (own, ·)
  else match heaviest l x o k with
    | none => none
    | some (name, u) =>
      if name = own ∨ u.used < l.usedBy k own + n then none
      else if u.used = l.usedBy k own + n ∧ !older (x.oldest o k u) (x.requesterAge k r now) then none
      else some (name, u)

/-- The holder that pays, so far. -/
def better (l : Ledger) (x : Times) (r : ConnId) (k : BudgetKind) (ownPrefix : Bool) (now : Time)
    (h : Option ConnId) (c : ConnId) :
    Option ConnId :=
  if c = r ∨ l.holdOf c k ≤ 0 ∨ !x.eligible l c r k ownPrefix now then h
  else match h with
    | none => some c
    | some b =>
      if l.holdOf b k < l.holdOf c k ∨
      (l.holdOf c k = l.holdOf b k ∧ older (x.age k c) (x.age k b)) then some c else some b

/-- The connection that gives up its bytes, and its prefix. -/
def pick (l : Ledger) (x : Times) (o : MapOrder) (r : ConnId) (k : BudgetKind) (n : Int) (above : Bool) (now : Time) :
    Option (ConnId × String) :=
  match payer l x o r k n above now with
  | none => none
  | some (name, u) =>
    ((arrange o.conns (u.holders.sort (· ≤ ·))).foldl (better l x r k (name = l.prefixOf r) now) none).map (·, name)

/-! ## The loops -/

section

variable {l : Ledger} {x : Times} {o : MapOrder} {r h : ConnId} {k : BudgetKind} {n : Int} {above : Bool}
  {now : Time} {name : String}
  {u : PrefixUse}

theorem mem_arrange {α : Type} [DecidableEq α] {order keys : List α} {a : α} : a ∈ arrange order keys ↔ a ∈ keys := by
  simp only [arrange, List.mem_append, List.mem_dedup, List.mem_filter, decide_eq_true_eq]
  tauto

theorem heavier_most {b : Option (String × PrefixUse)} {ps : List (String × PrefixUse)} {m : String × PrefixUse}
    (result : ps.foldl (heavier x o k) b = some m) :
    (m ∈ ps ∨ b = some m) ∧ (∀ p ∈ ps, p.2.used ≤ m.2.used) ∧ ∀ p, b = some p → p.2.used ≤ m.2.used := by
  induction ps generalizing b with
  | nil => exact ⟨.inr result, (by simp), fun p same => (Option.some.inj (same.symm.trans result)) ▸ le_rfl⟩
  | cons p ps ih =>
    obtain ⟨mem, all, start⟩ := ih result
    cases b with
    | none =>
      have first := start p rfl
      simp only [heavier, Option.some.injEq] at mem
      exact ⟨.inl (by grind), by grind, (by simp)⟩
    | some b =>
      simp only [heavier] at mem start
      refine ⟨?_, ?_, ?_⟩ <;> grind

theorem heaviest_most (result : heaviest l x o k = some (name, u)) :
    (l.pools k).prefixes.lookup name = some u ∧ ∀ q v, (l.pools k).prefixes.lookup q = some v → v.used ≤ u.used := by
  obtain ⟨mem, all, -⟩ := heavier_most result
  simp only [List.mem_filterMap, mem_arrange, Option.map_eq_some_iff, reduceCtorEq, or_false,
    Prod.mk.injEq] at mem all
  obtain ⟨_, -, _, found, rfl, rfl⟩ := mem
  refine ⟨found, fun q v here => all (q, v) ⟨q, ?_, v, here, rfl⟩⟩
  exact AList.lookup_isSome.mp (by rw [here]; rfl)

theorem better_spec {b : Option ConnId} {cs : List ConnId} {own : Bool}
    (result : cs.foldl (better l x r k own now) b = some h) :
    b = some h ∨ (h ∈ cs ∧ h ≠ r ∧ 0 < l.holdOf h k ∧ x.eligible l h r k own now = true) := by
  induction cs generalizing b with
  | nil => exact .inl result
  | cons c cs ih =>
    obtain start | found := ih result
    · unfold better at start
      cases b <;> grind
    · exact .inr ⟨List.mem_cons_of_mem _ found.1, found.2⟩

/-- Who pays for the room: the own prefix above its share, else the largest one. -/
theorem payer_spec (result : payer l x o r k n above now = some (name, u)) :
    (l.pools k).prefixes.lookup name = some u ∧ (above = true → name = l.prefixOf r) ∧
      (above = false → name ≠ l.prefixOf r ∧ (∀ q v, (l.pools k).prefixes.lookup q = some v → v.used ≤ u.used) ∧
        l.usedBy k (l.prefixOf r) + n ≤ u.used ∧
        (u.used = l.usedBy k (l.prefixOf r) + n → older (x.oldest o k u) (x.requesterAge k r now) = true)) := by
  rw [payer] at result
  cases above with
  | true =>
    simp only [if_true, Option.map_eq_some_iff, Prod.mk.injEq] at result
    obtain ⟨_, found, rfl, rfl⟩ := result
    exact ⟨found, fun _ => rfl, (by simp)⟩
  | false =>
    cases most : heaviest l x o k with
    | none => simp [most] at result
    | some p =>
      obtain ⟨name, u⟩ := p
      obtain ⟨found, all⟩ := heaviest_most most
      simp only [most] at result
      grind

end

/-- No older one is younger. -/
theorem older_asymm {a b : Option Time} (h : older a b = true) : older b a = false := by
  cases a <;> cases b <;> simp_all [older]
  exact h.le

/-- The oldest charge of a prefix. -/
def ageOf (l : Ledger) (x : Times) (o : MapOrder) (k : BudgetKind) (name : String) : Option Time :=
  ((l.pools k).prefixes.lookup name).bind (x.oldest o k)

/-- What the victim `h`, of prefix `name`, is for a charge of `n` bytes by `r`. -/
structure Fair (l : Ledger) (x : Times) (o : MapOrder) (r : ConnId) (k : BudgetKind) (n : Int)
    (above : Bool) (now : Time)
    (h : ConnId) (name : String) : Prop where
  other : h ≠ r
  holder : 0 < l.holdOf h k ∧ ∃ u, (l.pools k).prefixes.lookup name = some u ∧ h ∈ u.holders
  share : above = true → name = l.prefixOf r
  relayWide : above = false → name ≠ l.prefixOf r ∧
    (∀ q u, (l.pools k).prefixes.lookup q = some u → u.used ≤ l.usedBy k name) ∧
    l.usedBy k (l.prefixOf r) + n ≤ l.usedBy k name ∧
    (l.usedBy k (l.prefixOf r) + n = l.usedBy k name → older (ageOf l x o k name) (x.requesterAge k r now) = true)
  /-- Its oldest frame has waited `evictStale` of all that it holds. -/
  stale : k ≠ .read → ∃ first, (x.pushed h).head? = some first ∧
    evictStale (l.holdOf h .outbound + l.holdOf h .ephemeral) ≤ now - first

/-- A victim is fair, and no prefix pays for the relay that holds less than another. Eviction cannot go back and
forth between two connections of equal use: a prefix pays for another only if it holds strictly more, so of two
connections at most one is evicted for the other, and where the charge makes the two equal only a strictly older one
pays, whatever happens in between. -/
theorem pick_fair {l : Ledger} {x : Times} {o : MapOrder} {r h : ConnId} {k : BudgetKind} {n : Int} {above : Bool}
    {now : Time} {name : String} (picked : pick l x o r k n above now = some (h, name)) :
    Fair l x o r k n above now h name ∧
    (above = false → ∀ q u, (l.pools k).prefixes.lookup q = some u → ¬l.usedBy k name < u.used) ∧
    (above = false → 0 < n → l.usedBy k (l.prefixOf r) < l.usedBy k name) ∧
    (above = false → 0 < n → l.prefixOf h = name →
      ∀ x' o' m now', 0 < m → pick l x' o' h k m false now' ≠ some (r, l.prefixOf r)) ∧
    (above = false → l.usedBy k (l.prefixOf r) + n = l.usedBy k name →
      ∀ l' x' o' m now', pick l' x' o' h k m false now' = some (r, l.prefixOf r) → l'.prefixOf h = name →
        l'.usedBy k name + m = l'.usedBy k (l.prefixOf r) → ageOf l x o k name = x'.requesterAge k h now' →
        ageOf l' x' o' k (l.prefixOf r) ≠ x.requesterAge k r now) := by
  have spec : ∀ {l x o r h n above now name}, pick l x o r k n above now = some (h, name) →
      Fair l x o r k n above now h name := by
    intro l x o r h n above now name picked
    rw [pick] at picked
    split at picked
    · cases picked
    · next _ u pays =>
      obtain ⟨_, found, same⟩ := Option.map_eq_some_iff.mp picked
      cases same
      obtain ⟨stored, share, relayWide⟩ := payer_spec pays
      obtain ⟨mem, other, holds, eligible⟩ := (better_spec found).resolve_left (by simp)
      have used : l.usedBy k name = u.used := by simp [Ledger.usedBy, stored]
      refine ⟨other, ⟨holds, u, stored, by simpa [mem_arrange] using mem⟩, share, ?_, ?_⟩
      · rw [used, ageOf, stored]
        grind
      · intro kind
        cases k with
        | read => exact absurd rfl kind
        | outbound | ephemeral =>
          cases waits : x.pushed h with
          | nil => simp [Times.eligible, waits] at eligible
          | cons first rest => exact ⟨first, rfl, by simpa [Times.eligible, waits] using eligible⟩
  have fair := spec picked
  have more : above = false → 0 < n → l.usedBy k (l.prefixOf r) < l.usedBy k name := by
    intro wide pos
    have := (fair.relayWide wide).2.2.1
    omega
  refine ⟨fair, fun wide q u found => not_lt.mpr ((fair.relayWide wide).2.1 q u found), more, ?_, ?_⟩
  · intro wide pos own x' o' m now' pos' back
    have first := more wide pos
    have second := ((spec back).relayWide rfl).2.2.1
    rw [own] at second
    omega
  intro wide equal l' x' o' m now' back own equal' age age'
  have first := (fair.relayWide wide).2.2.2 equal
  have second := ((spec back).relayWide rfl).2.2.2 (by rw [own]; exact equal')
  rw [age', ← age, older_asymm first] at second
  cases second

/-! ## A victim that has just made progress -/

structure Timed where
  ledger : Ledger
  times : Times := {}

/-- The frames that wait on a connection. -/
def Ledger.waits (l : Ledger) (c : ConnId) : Nat := ((l.conns.lookup c).map fun c => c.queue.length).getD 0

/-- The frames that are pushed get the time, and those that are written or given up go. -/
def stepAt (s : Timed) (e : Time × Event) : Timed :=
  let l := step s.ledger e.2
  let pushed c :=
    if s.ledger.waits c < l.waits c then s.times.pushed c ++ [e.1]
    else (s.times.pushed c).drop (s.ledger.waits c - l.waits c)
  { ledger := l, times := { s.times with pushed } }

/-- Two frames are pushed at once, and the first is written after 9 s. -/
def slowReader : Timed :=
  run stepAt { ledger := newLedger fun _ => 1000 }
    [(0, .connect 1 "a" 0 8), (0, .connect 2 "b" 0 8), (0, .push 1 true 100 false), (0, .push 1 true 900 false),
      (9 * second, .take 1), (9 * second, .written 1)]

def noOrder : MapOrder := ⟨[], []⟩

theorem slow_reader_evicted :
    Fair slowReader.ledger slowReader.times noOrder 2 .outbound 200 false (9 * second + 1000000) 1 "a" :=
  (pick_fair (by decide +kernel)).1

/-- The victim wrote a frame one millisecond ago. -/
theorem progress_does_not_save :
    pick slowReader.ledger slowReader.times noOrder 2 .outbound 200 false (9 * second + 1000000) = some (1, "a") ∧
    (9 * second + 1000000) - 9 * second < evictStale
      (slowReader.ledger.holdOf 1 .outbound + slowReader.ledger.holdOf 1 .ephemeral) := by
  decide +kernel

end Agentnet.Relay.Budget
