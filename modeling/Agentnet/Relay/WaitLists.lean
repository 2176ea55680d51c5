import Agentnet.Lib.Run
import Agentnet.Relay.Buckets

/-! The redelivery wait lists of `limits.go`: per network prefix, the connections that were
refused for want of prefix budget, and the ones that the retry serves now. -/

namespace Agentnet.Relay.WaitLists

open Lib

abbrev ConnId := Nat

/-- The fields of a connection under `limits.mu`. -/
structure Waiter where
  netPrefix : String
  key : String
  waiting : Bool := false
  waitClosed : Bool := false
  waitTicket : Nat := 0

/-- The fields of `limits` that concern redelivery. -/
structure Limits where
  redeliverKey : BucketSet
  redeliverPrefix : BucketSet
  conns : ConnId → Waiter
  redeliverWait : Dict String (List ConnId) := ∅
  redeliverServed : Dict String (Dict ConnId Time) := ∅
  waitTickets : Nat := 0

/-- `perHour`: a byte bucket refilling `n` bytes an hour with a burst of `n`. -/
def perHour (n : Nat) : BucketSet := { rate := n / 3600, burst := n }

def newLimits (perKey perPrefix : Nat) (netPrefix key : ConnId → String) : Limits where
  redeliverKey := perHour perKey
  redeliverPrefix := perHour perPrefix
  conns := fun c => { netPrefix := netPrefix c, key := key c }

namespace Limits

/-- The line of a prefix. -/
def waitOf (l : Limits) (p : String) : List ConnId := (l.redeliverWait.lookup p).getD []

def servedOf (l : Limits) (p : String) : Dict ConnId Time := (l.redeliverServed.lookup p).getD ∅

def isServed (l : Limits) (c : ConnId) : Prop := c ∈ l.servedOf (l.conns c).netPrefix

instance (l : Limits) (c : ConnId) : Decidable (l.isServed c) :=
  inferInstanceAs (Decidable (c ∈ l.servedOf (l.conns c).netPrefix))

/-- It waits or is being served. -/
def InLine (l : Limits) (c : ConnId) : Prop := (l.conns c).waiting = true ∨ l.isServed c

def setWait (l : Limits) (p : String) (list : List ConnId) : Limits :=
  { l with redeliverWait := if list = [] then l.redeliverWait.erase p else l.redeliverWait.insert p list }

def setServed (l : Limits) (p : String) (served : Dict ConnId Time) : Limits :=
  { l with redeliverServed :=
      if served.entries = [] then l.redeliverServed.erase p else l.redeliverServed.insert p served }

def setConn (l : Limits) (c : ConnId) (w : Waiter) : Limits := { l with conns := Function.update l.conns c w }

/-- `c.waitClosed = true`. -/
def shut (l : Limits) (c : ConnId) : Limits := l.setConn c { l.conns c with waitClosed := true }

end Limits

/-- `slices.Insert` at the place of `c` by ticket. The list is sorted, so the binary search
finds the first one whose ticket is not below. -/
def insertByTicket (ticket : ConnId → Nat) (c : ConnId) : List ConnId → List ConnId
  | [] => [c]
  | x :: rest => if ticket x < ticket c then x :: insertByTicket ticket c rest else c :: x :: rest

def joinWaitLocked (l : Limits) (c : ConnId) (back : Bool) : Limits :=
  let w := l.conns c
  let list := l.waitOf w.netPrefix
  if w.waiting ∨ w.waitClosed then l
  else if ¬back ∨ w.waitTicket = 0 then
    let l := { l with waitTickets := l.waitTickets + 1 }
    (l.setConn c { w with waiting := true, waitTicket := l.waitTickets }).setWait w.netPrefix (list ++ [c])
  else
    (l.setConn c { w with waiting := true }).setWait w.netPrefix
      (insertByTicket (fun x => (l.conns x).waitTicket) c list)

def removeWaitLocked (l : Limits) (c : ConnId) : Limits :=
  let w := l.conns c
  if w.waiting then
    (l.setConn c { w with waiting := false }).setWait w.netPrefix ((l.waitOf w.netPrefix).erase c)
  else l

def endTurnLocked (l : Limits) (c : ConnId) : Limits :=
  let p := (l.conns c).netPrefix
  if c ∈ l.servedOf p then l.setServed p ((l.servedOf p).erase c) else l

def redeliverForget (l : Limits) (c : ConnId) : Limits := endTurnLocked (removeWaitLocked (l.shut c) c) c

def redeliverDone (l : Limits) (c : ConnId) : Limits := endTurnLocked l c

inductive Refusal where
  | queueRedeliverKey
  | queueRedeliverPrefix
  deriving DecidableEq

def keyHas (l : Limits) (c : ConnId) (now : Time) (size : Rat) : Bool × Limits :=
  let (ok, b) := l.redeliverKey.has (l.conns c).key now size
  (ok, { l with redeliverKey := b })

def prefixHas (l : Limits) (p : String) (now : Time) (size : Rat) : Bool × Limits :=
  let (ok, b) := l.redeliverPrefix.has p now size
  (ok, { l with redeliverPrefix := b })

/-- `take` on both buckets of `c`. -/
def takeBoth (l : Limits) (c : ConnId) (now : Time) (size : Rat) : Limits :=
  { l with
    redeliverKey := (l.redeliverKey.take (l.conns c).key now size).2
    redeliverPrefix := (l.redeliverPrefix.take (l.conns c).netPrefix now size).2 }

def redeliverAllowed (l : Limits) (c : ConnId) (n : Nat) (now : Time) : Option Refusal × Limits :=
  let p := (l.conns c).netPrefix
  if ¬l.isServed c ∧ ((l.servedOf p).entries ≠ [] ∨ l.waitOf p ≠ []) then
    (some .queueRedeliverPrefix, joinWaitLocked l c false)
  else
    let (keyPays, l) := keyHas l c now n
    if ¬keyPays then (some .queueRedeliverKey, l)
    else
      let (prefixPays, l) := prefixHas l p now n
      if ¬prefixPays then
        if l.isServed c then (some .queueRedeliverPrefix, joinWaitLocked (endTurnLocked l c) c true)
        else (some .queueRedeliverPrefix, joinWaitLocked l c false)
      else (none, takeBoth l c now n)

/-- The tokens that a bucket set that is on lets a reservation have. -/
def reservable (b : BucketSet) (key : String) (now : Time) (n : Rat) : Rat × BucketSet :=
  if 0 < b.rate then
    let (tb, b) := b.refill key now
    (min n tb.tokens, b)
  else (n, b)

def redeliverReserve (l : Limits) (c : ConnId) (limit : Int) (now : Time) : Int × Limits :=
  let (n, key) := reservable l.redeliverKey (l.conns c).key now (max limit 0 : Int)
  let (n, netPrefix) := reservable l.redeliverPrefix (l.conns c).netPrefix now n
  let n := n.floor
  (n, takeBoth { l with redeliverKey := key, redeliverPrefix := netPrefix } c now n)

def redeliverRefund (l : Limits) (c : ConnId) (n : Int) (now : Time) : Limits :=
  if n ≤ 0 then l
  else
    { l with
      redeliverKey := l.redeliverKey.refund (l.conns c).key now n
      redeliverPrefix := l.redeliverPrefix.refund (l.conns c).netPrefix now n }

def redeliverTurn : Time := minute

/-- What `nextServedAt` reads of the connections: `skipped` first, then in `start` whether it is
draining and `skippedThen`. `order` is the map order of the prefixes. -/
structure Tick where
  tick : Time
  now : Time
  skipped : ConnId → Nat
  draining : ConnId → Bool
  skippedThen : ConnId → Nat
  order : List String

/-- The connection has skipped rows and is not draining. -/
def Tick.start (x : Tick) (c : ConnId) : Bool := !(x.draining c || x.skippedThen c == 0)

/-- `c` leaves its list and is served from now. -/
def serve (l : Limits) (p : String) (c : ConnId) (tick : Time) : Limits :=
  let l := removeWaitLocked l c
  l.setServed p ((l.servedOf p).insert c tick)

/-- The walk of one prefix's list, with the bytes that are `pending`. -/
def walk (x : Tick) (p : String) : List ConnId → Rat → Limits → Limits × List ConnId
  | [], _, l => (l, [])
  | c :: rest, pending, l =>
    if x.skipped c = 0 then walk x p rest pending l
    else
      let (keyPays, l) := keyHas l c x.now (x.skipped c)
      if ¬keyPays then walk x p rest pending l
      else
        let (prefixPays, l) := prefixHas l p x.now (pending + x.skipped c)
        if ¬prefixPays then (l, [])
        else if x.start c = false then walk x p rest pending l
        else
          let (l, picked) := walk x p rest (pending + x.skipped c) (serve l p c x.tick)
          (l, c :: picked)

def visits (order keys : List String) : List String :=
  (order.filter fun p => p ∈ keys).dedup ++ keys.filter fun p => p ∉ order

def walks (x : Tick) : List String → Limits → Limits × List ConnId
  | [], l => (l, [])
  | p :: rest, l =>
    let (l, picked) := walk x p (l.waitOf p) 0 l
    let (l, more) := walks x rest l
    (l, picked ++ more)

def endOldTurns (l : Limits) (tick : Time) : Limits :=
  ((l.redeliverServed.entries.flatMap fun e => e.2.entries).filter
    fun e => redeliverTurn ≤ tick - e.2).foldl (fun l e => endTurnLocked l e.1) l

def nextServedAt (l : Limits) (x : Tick) : Limits × List ConnId :=
  let l := endOldTurns l x.tick
  walks x (visits x.order l.redeliverWait.keys) l

/-- The calls of `limits` that concern redelivery. -/
inductive Event where
  | allowed (c : ConnId) (n : Nat) (now : Time)
  | reserve (c : ConnId) (limit : Int) (now : Time)
  | refund (c : ConnId) (n : Int) (now : Time)
  | forget (c : ConnId)
  | done (c : ConnId)
  | nextServed (x : Tick)

/-- One event. -/
def step (l : Limits) : Event → Limits
  | .allowed c n now => (redeliverAllowed l c n now).2
  | .reserve c limit now => (redeliverReserve l c limit now).2
  | .refund c n now => redeliverRefund l c n now
  | .forget c => redeliverForget l c
  | .done c => redeliverDone l c
  | .nextServed x => (nextServedAt l x).1

/-! ## What the setters leave -/

section

variable {l : Limits} {c : ConnId} {p p' : String}

theorem waitOf_setWait (l : Limits) (p p' : String) (list : List ConnId) :
    (l.setWait p list).waitOf p' = if p' = p then list else l.waitOf p' := by
  unfold Limits.setWait Limits.waitOf
  by_cases same : p' = p
  · subst same
    rw [if_pos rfl]
    dsimp only
    split
    · next empty => rw [AList.lookup_erase, empty]; rfl
    · rw [AList.lookup_insert]; rfl
  · rw [if_neg same]
    dsimp only
    split
    · rw [AList.lookup_erase_ne same]
    · rw [AList.lookup_insert_ne same]

theorem servedOf_setServed (l : Limits) (p p' : String) (served : Dict ConnId Time) :
    (l.setServed p served).servedOf p' = if p' = p then served else l.servedOf p' := by
  unfold Limits.setServed Limits.servedOf
  by_cases same : p' = p
  · subst same
    rw [if_pos rfl]
    dsimp only
    split
    · next empty =>
      rw [AList.lookup_erase]
      exact (AList.ext empty).symm
    · rw [AList.lookup_insert]; rfl
  · rw [if_neg same]
    dsimp only
    split
    · rw [AList.lookup_erase_ne same]
    · rw [AList.lookup_insert_ne same]

variable {list : List ConnId} {ticket : ConnId → Nat}

theorem mem_insertByTicket {x : ConnId} : x ∈ insertByTicket ticket c list ↔ x = c ∨ x ∈ list := by
  induction list with
  | nil => simp [insertByTicket]
  | cons y rest ih =>
    rw [insertByTicket]
    split
    · rw [List.mem_cons, ih, List.mem_cons]
      exact or_left_comm
    · rw [List.mem_cons]

theorem insertByTicket_sorted (sorted : list.Pairwise fun a b => ticket a < ticket b)
    (other : ∀ x ∈ list, ticket x ≠ ticket c) :
    (insertByTicket ticket c list).Pairwise fun a b => ticket a < ticket b := by
  induction list with
  | nil => exact List.pairwise_singleton _ _
  | cons y rest ih =>
    obtain ⟨first, later⟩ := List.pairwise_cons.mp sorted
    rw [insertByTicket]
    split
    · next below =>
      refine List.pairwise_cons.mpr ⟨?_, ih later fun x mem => other x (List.mem_cons_of_mem _ mem)⟩
      intro x mem
      obtain rfl | old := mem_insertByTicket.mp mem
      · exact below
      · exact first x old
    · next notBelow =>
      have above : ticket c < ticket y := by
        have ne := other y List.mem_cons_self
        omega
      refine List.pairwise_cons.mpr ⟨?_, sorted⟩
      intro x mem
      obtain rfl | old := List.mem_cons.mp mem
      · exact above
      · exact above.trans (first x old)

end

/-! ## Invariant -/

/-- Both bucket sets are as their creation and their operations leave them. -/
structure BucketsOk (l : Limits) : Prop where
  key : l.redeliverKey.Within
  net : l.redeliverPrefix.Within

/-- The invariant: lists are in the order of the tickets and agree with the connections. -/
structure Ok (l : Limits) : Prop where
  sorted : ∀ p, (l.waitOf p).Pairwise fun a b => (l.conns a).waitTicket < (l.conns b).waitTicket
  listed : ∀ p c, c ∈ l.waitOf p ↔ (l.conns c).waiting = true ∧ (l.conns c).netPrefix = p
  served : ∀ p c, c ∈ l.servedOf p → (l.conns c).netPrefix = p ∧ (l.conns c).waiting = false ∧
    (l.conns c).waitClosed = false ∧ (l.conns c).waitTicket ≠ 0
  closed : ∀ c, (l.conns c).waitClosed = true → (l.conns c).waiting = false
  given : ∀ c, (l.conns c).waitTicket ≤ l.waitTickets
  ticketed : ∀ c, (l.conns c).waiting = true → (l.conns c).waitTicket ≠ 0
  distinct : ∀ c c', (l.conns c).waitTicket ≠ 0 → (l.conns c).waitTicket = (l.conns c').waitTicket → c = c'

structure SameLists (l l' : Limits) : Prop where
  conns : l'.conns = l.conns
  wait : l'.redeliverWait = l.redeliverWait
  served : l'.redeliverServed = l.redeliverServed
  tickets : l'.waitTickets = l.waitTickets

variable {l l' : Limits}

/-- The invariant reads the lists only. -/
theorem Ok.same (h : Ok l) (same : SameLists l l') : Ok l' := by
  obtain ⟨conns, wait, served, tickets⟩ := same
  have waits : ∀ p, l'.waitOf p = l.waitOf p := fun p => by simp only [Limits.waitOf, wait]
  have serveds : ∀ p, l'.servedOf p = l.servedOf p := fun p => by simp only [Limits.servedOf, served]
  constructor <;> simp only [conns, waits, serveds, tickets]
  · exact h.sorted
  · exact h.listed
  · exact h.served
  · exact h.closed
  · exact h.given
  · exact h.ticketed
  · exact h.distinct

theorem ok_newLimits (perKey perPrefix : Nat) (netPrefix key : ConnId → String) :
    Ok (newLimits perKey perPrefix netPrefix key) := by
  constructor
  · intro p
    exact .nil
  · intro p c
    exact ⟨fun mem => (by cases mem), fun both => (by cases both.1)⟩
  · intro p c mem
    exact absurd mem (AList.notMem_empty c)
  · intro c shut
    cases shut
  · intro c
    exact Nat.zero_le _
  · intro c isWaiting
    cases isWaiting
  · intro c c' ticket
    exact absurd rfl ticket

section

variable {l : Limits} {c : ConnId}

/-- A connection that does not wait joins with ticket `t`, of its own, at its place in the list. -/
theorem Ok.join (h : Ok l) (t tickets : Nat) {list : List ConnId} (idle : (l.conns c).waiting = false)
    (live : (l.conns c).waitClosed = false) (unserved : ¬l.isServed c) (some_ : t ≠ 0) (most : t ≤ tickets)
    (grown : l.waitTickets ≤ tickets) (own : ∀ x, (l.conns x).waitTicket = t → x = c)
    (members : ∀ x, x ∈ list ↔ x = c ∨ x ∈ l.waitOf (l.conns c).netPrefix)
    (sorted : list.Pairwise fun a b =>
      (Function.update l.conns c { l.conns c with waiting := true, waitTicket := t } a).waitTicket <
      (Function.update l.conns c { l.conns c with waiting := true, waitTicket := t } b).waitTicket) :
    Ok ((({ l with waitTickets := tickets } : Limits).setConn c
      { l.conns c with waiting := true, waitTicket := t }).setWait (l.conns c).netPrefix list) := by
  have absent : ∀ p, c ∉ l.waitOf p := by
    intro p mem
    rw [h.listed, idle] at mem
    cases mem.1
  constructor
  · intro p
    rw [waitOf_setWait]
    split
    · exact sorted
    · refine (h.sorted p).imp_of_mem ?_
      intro a b memA memB less
      have neA : a ≠ c := fun same => absent p (same ▸ memA)
      have neB : b ≠ c := fun same => absent p (same ▸ memB)
      simpa only [Limits.setWait, Limits.setConn, Function.update_of_ne neA, Function.update_of_ne neB] using less
  · intro p x
    rw [waitOf_setWait]
    by_cases same : x = c
    · subst same
      simp only [Limits.setWait, Limits.setConn, Function.update_self, true_and]
      split
      · next here => simp [members, here]
      · next other => exact ⟨fun mem => absurd mem (absent p), fun here => absurd here.symm other⟩
    · simp only [Limits.setWait, Limits.setConn, Function.update_of_ne same]
      split
      · next here =>
        rw [members, h.listed, here]
        simp [same]
      · exact h.listed p x
  · intro p x mem
    have old : x ∈ l.servedOf p := mem
    have ne : x ≠ c := by
      rintro rfl
      obtain ⟨here, -⟩ := h.served p x old
      exact unserved (by rw [Limits.isServed, here]; exact old)
    simpa only [Limits.setWait, Limits.setConn, Function.update_of_ne ne] using h.served p x old
  · intro x shut
    by_cases same : x = c
    · subst same
      simp only [Limits.setWait, Limits.setConn, Function.update_self, live] at shut
      cases shut
    · simp only [Limits.setWait, Limits.setConn, Function.update_of_ne same] at shut ⊢
      exact h.closed x shut
  · intro x
    by_cases same : x = c
    · subst same
      simpa only [Limits.setWait, Limits.setConn, Function.update_self] using most
    · simpa only [Limits.setWait, Limits.setConn, Function.update_of_ne same] using (h.given x).trans grown
  · intro x isWaiting
    by_cases same : x = c
    · subst same
      simpa only [Limits.setWait, Limits.setConn, Function.update_self] using some_
    · simp only [Limits.setWait, Limits.setConn, Function.update_of_ne same] at isWaiting ⊢
      exact h.ticketed x isWaiting
  · intro x y ticket equal
    by_cases sameX : x = c <;> by_cases sameY : y = c
    · rw [sameX, sameY]
    · subst sameX
      simp only [Limits.setWait, Limits.setConn, Function.update_self, Function.update_of_ne sameY] at equal
      exact (own y equal.symm).symm
    · subst sameY
      simp only [Limits.setWait, Limits.setConn, Function.update_self, Function.update_of_ne sameX] at equal
      exact own x equal
    · simp only [Limits.setWait, Limits.setConn, Function.update_of_ne sameX,
        Function.update_of_ne sameY] at ticket equal
      exact h.distinct x y ticket equal

theorem Ok.joinWaitLocked (h : Ok l) (back : Bool) (unserved : ¬l.isServed c) : Ok (joinWaitLocked l c back) := by
  have update_ticket : ∀ x, (Function.update l.conns c
      { l.conns c with waiting := true, waitTicket := (l.conns c).waitTicket } x).waitTicket =
        (l.conns x).waitTicket := by
    intro x
    by_cases same : x = c
    · subst same
      rw [Function.update_self]
    · rw [Function.update_of_ne same]
  unfold WaitLists.joinWaitLocked
  dsimp only
  split
  · exact h
  · next out =>
    obtain ⟨idle, live⟩ := not_or.mp out
    rw [Bool.not_eq_true] at idle live
    have absent : ∀ x ∈ l.waitOf (l.conns c).netPrefix, x ≠ c := by
      rintro x mem rfl
      rw [h.listed, idle] at mem
      cases mem.1
    split
    · -- a new ticket, above all that were given
      refine h.join (l.waitTickets + 1) _ idle live unserved (Nat.succ_ne_zero _) (le_refl _) (Nat.le_succ _) ?_ ?_ ?_
      · intro x same
        have most := h.given x
        omega
      · intro x
        rw [List.mem_append, List.mem_singleton]
        exact or_comm
      · refine List.pairwise_append.mpr ⟨?_, List.pairwise_singleton _ _, ?_⟩
        · refine (h.sorted _).imp_of_mem ?_
          intro a b memA memB less
          simpa only [Function.update_of_ne (absent a memA), Function.update_of_ne (absent b memB)] using less
        · intro a memA b isLast
          obtain rfl := List.mem_singleton.mp isLast
          rw [Function.update_self, Function.update_of_ne (absent a memA)]
          exact Nat.lt_succ_of_le (h.given a)
    · next keeps =>
      obtain ⟨-, ticket⟩ := not_or.mp keeps
      refine h.join (l.conns c).waitTicket l.waitTickets idle live unserved ticket (h.given c)
        (le_refl _) ?_ (fun x => mem_insertByTicket) ?_
      · intro x same
        exact (h.distinct c x ticket same.symm).symm
      · simp only [update_ticket]
        refine insertByTicket_sorted (h.sorted _) ?_
        intro x mem same
        exact absent x mem (h.distinct c x ticket same.symm).symm

theorem Ok.removeWaitLocked (h : Ok l) (c : ConnId) : Ok (removeWaitLocked l c) := by
  unfold WaitLists.removeWaitLocked
  dsimp only
  split
  · next isWaiting =>
    have nodup : ∀ p, (l.waitOf p).Nodup := fun p => (h.sorted p).imp fun less same => by simp [same] at less
    have frame : ∀ x, x ≠ c → Function.update l.conns c { l.conns c with waiting := false } x = l.conns x :=
      fun x ne => Function.update_of_ne ne _ _
    have tickets : ∀ x,
        (Function.update l.conns c { l.conns c with waiting := false } x).waitTicket = (l.conns x).waitTicket := by
      intro x
      by_cases same : x = c
      · subst same
        rw [Function.update_self]
      · rw [frame x same]
    constructor
    · intro p
      rw [waitOf_setWait]
      simp only [Limits.setWait, Limits.setConn, tickets]
      split
      · exact (h.sorted _).sublist List.erase_sublist
      · exact h.sorted p
    · intro p x
      rw [waitOf_setWait]
      simp only [Limits.setWait, Limits.setConn]
      by_cases same : x = c
      · subst same
        rw [Function.update_self]
        split
        · simp [(nodup _).mem_erase_iff]
        · next other => refine ⟨fun mem => absurd ((h.listed p x).mp mem).2.symm other, fun both => (by cases both.1)⟩
      · rw [frame x same]
        split
        · next here => rw [(nodup _).mem_erase_iff, h.listed, here]; simp [same]
        · exact h.listed p x
    · intro p x mem
      have old := h.served p x mem
      have ne : x ≠ c := by
        rintro rfl
        rw [isWaiting] at old
        cases old.2.1
      simpa only [Limits.setWait, Limits.setConn, frame x ne] using old
    · intro x shut
      by_cases same : x = c
      · subst same
        simp only [Limits.setWait, Limits.setConn, Function.update_self]
      · simp only [Limits.setWait, Limits.setConn, frame x same] at shut ⊢
        exact h.closed x shut
    · intro x
      simpa only [Limits.setWait, Limits.setConn, tickets] using h.given x
    · intro x waits
      by_cases same : x = c
      · subst same
        simp only [Limits.setWait, Limits.setConn, Function.update_self] at waits
        cases waits
      · simp only [Limits.setWait, Limits.setConn, frame x same] at waits ⊢
        exact h.ticketed x waits
    · intro x y
      simpa only [Limits.setWait, Limits.setConn, tickets] using h.distinct x y
  · exact h

variable {p : String}

theorem Ok.setServed (h : Ok l) {served : Dict ConnId Time}
    (fits : ∀ x ∈ served, (l.conns x).netPrefix = p ∧ (l.conns x).waiting = false ∧
      (l.conns x).waitClosed = false ∧ (l.conns x).waitTicket ≠ 0) : Ok (l.setServed p served) := by
  refine { h with served := ?_ }
  intro p' x mem
  rw [servedOf_setServed] at mem
  split at mem
  · next here =>
    subst here
    exact fits x mem
  · exact h.served p' x mem

theorem Ok.endTurnLocked (h : Ok l) (c : ConnId) : Ok (endTurnLocked l c) := by
  unfold WaitLists.endTurnLocked
  dsimp only
  split
  · apply h.setServed
    intro x mem
    exact h.served _ x (AList.mem_erase.mp mem).2
  · exact h

theorem not_isServed_endTurn (l : Limits) (c : ConnId) : ¬(endTurnLocked l c).isServed c := by
  unfold WaitLists.endTurnLocked Limits.isServed
  dsimp only
  split
  · change c ∉ Limits.servedOf _ (l.conns c).netPrefix
    rw [servedOf_setServed, if_pos rfl, AList.mem_erase]
    exact fun both => both.1 rfl
  · next absent => exact absent

/-- A connection that neither waits nor is served may close. -/
theorem Ok.close (h : Ok l) (idle : (l.conns c).waiting = false) (unserved : ¬l.isServed c) : Ok (l.shut c) := by
  have same : ∀ x,
      (Function.update l.conns c { l.conns c with waitClosed := true } x).waitTicket = (l.conns x).waitTicket ∧
      (Function.update l.conns c { l.conns c with waitClosed := true } x).waiting = (l.conns x).waiting ∧
      (Function.update l.conns c { l.conns c with waitClosed := true } x).netPrefix = (l.conns x).netPrefix := by
    intro x
    by_cases mine : x = c
    · subst mine
      rw [Function.update_self]
      exact ⟨rfl, rfl, rfl⟩
    · rw [Function.update_of_ne mine]
      exact ⟨rfl, rfl, rfl⟩
  refine ⟨?_, ?_, ?_, ?_, ?_, ?_, ?_⟩
  · intro p
    refine (h.sorted p).imp ?_
    intro a b less
    exact ((same a).1.trans_lt less).trans_eq (same b).1.symm
  · intro p x
    change x ∈ l.waitOf p ↔ _
    rw [h.listed, ← (same x).2.1, ← (same x).2.2]
    rfl
  · intro p x mem
    have ne : x ≠ c := by
      rintro rfl
      exact unserved (by rw [Limits.isServed, (h.served p x mem).1]; exact mem)
    simpa only [Limits.shut, Limits.setConn, Function.update_of_ne ne] using h.served p x mem
  · intro x shut
    simp only [Limits.shut, Limits.setConn, fun x => (same x).2]
    by_cases mine : x = c
    · rw [mine]
      exact idle
    · simp only [Limits.shut, Limits.setConn, Function.update_of_ne mine] at shut
      exact h.closed x shut
  · intro x
    simpa only [Limits.shut, Limits.setConn, fun x => (same x).1] using h.given x
  · intro x
    simpa only [Limits.shut, Limits.setConn, fun x => (same x).1, fun x => (same x).2.1] using h.ticketed x
  · intro x y
    simpa only [Limits.shut, Limits.setConn, fun x => (same x).1] using h.distinct x y

theorem shut_conn (l : Limits) (c : ConnId) : (l.shut c).conns c = { l.conns c with waitClosed := true } :=
  Function.update_self ..

theorem removeWait_shut (l : Limits) (c : ConnId) :
    removeWaitLocked (l.shut c) c = (removeWaitLocked l c).shut c := by
  unfold WaitLists.removeWaitLocked
  rw [shut_conn]
  by_cases isWaiting : (l.conns c).waiting = true
  · simp only [isWaiting, if_true]
    simp only [Limits.shut, Limits.setWait, Limits.setConn, Limits.waitOf, Function.update_idem, Function.update_self]
    rfl
  · simp only [isWaiting]
    rfl

theorem endTurn_shut (l : Limits) (c : ConnId) : endTurnLocked (l.shut c) c = (endTurnLocked l c).shut c := by
  unfold WaitLists.endTurnLocked
  rw [shut_conn]
  change (if c ∈ l.servedOf (l.conns c).netPrefix then _ else _) =
    Limits.shut (if c ∈ l.servedOf (l.conns c).netPrefix then _ else _) c
  split <;> rfl

theorem redeliverForget_eq (l : Limits) (c : ConnId) :
    redeliverForget l c = (endTurnLocked (removeWaitLocked l c) c).shut c := by
  rw [redeliverForget, removeWait_shut, endTurn_shut]

theorem removeWait_idle (l : Limits) (c : ConnId) : ((removeWaitLocked l c).conns c).waiting = false := by
  unfold WaitLists.removeWaitLocked
  dsimp only
  split
  · simp only [Limits.setWait, Limits.setConn, Function.update_self]
  · next idle => exact Bool.not_eq_true _ ▸ idle

theorem endTurn_conns (l : Limits) (c : ConnId) : (endTurnLocked l c).conns = l.conns := by
  unfold WaitLists.endTurnLocked
  dsimp only
  split <;> rfl

theorem Ok.redeliverForget (h : Ok l) (c : ConnId) : Ok (redeliverForget l c) := by
  rw [redeliverForget_eq]
  apply ((h.removeWaitLocked c).endTurnLocked c).close
  · rw [endTurn_conns]
    exact removeWait_idle l c
  · exact not_isServed_endTurn _ c

theorem Ok.serve (h : Ok l) (mem : c ∈ l.waitOf p) (tick : Time) : Ok (serve l p c tick) := by
  obtain ⟨isWaiting, here⟩ := (h.listed p c).mp mem
  have removed := h.removeWaitLocked c
  apply removed.setServed
  intro x inServed
  obtain rfl | old := (AList.mem_insert _).mp inServed
  · have state : (WaitLists.removeWaitLocked l x).conns x = { l.conns x with waiting := false } := by
      simp only [WaitLists.removeWaitLocked, isWaiting, if_true, Limits.setWait, Limits.setConn, Function.update_self]
    rw [state]
    refine ⟨here, rfl, ?_, h.ticketed x isWaiting⟩
    by_contra shut
    have idle := h.closed x (by simpa using shut)
    rw [isWaiting] at idle
    cases idle
  · exact removed.served p x old

end

/-! ## Tokens -/

/-- Prefixes, keys, tickets, rates and what the buckets hold at `now` are the same. -/
structure Static (now : Time) (l l' : Limits) : Prop where
  netPrefix : ∀ c, (l'.conns c).netPrefix = (l.conns c).netPrefix
  key : ∀ c, (l'.conns c).key = (l.conns c).key
  keyRate : l'.redeliverKey.rate = l.redeliverKey.rate
  netRate : l'.redeliverPrefix.rate = l.redeliverPrefix.rate
  tickets : ∀ c, (l'.conns c).waitTicket = (l.conns c).waitTicket
  keyTokens : ∀ k, l'.redeliverKey.tokensAt k now = l.redeliverKey.tokensAt k now
  netTokens : ∀ k, l'.redeliverPrefix.tokensAt k now = l.redeliverPrefix.tokensAt k now

theorem Static.refl (now : Time) (l : Limits) : Static now l l :=
  ⟨fun _ => rfl, fun _ => rfl, rfl, rfl, fun _ => rfl, fun _ => rfl, fun _ => rfl⟩

theorem Static.trans {now : Time} {l'' : Limits} (h : Static now l l') (h' : Static now l' l'') : Static now l l'' :=
  ⟨fun c => (h'.netPrefix c).trans (h.netPrefix c), fun c => (h'.key c).trans (h.key c), h'.keyRate.trans h.keyRate,
    h'.netRate.trans h.netRate, fun c => (h'.tickets c).trans (h.tickets c),
    fun k => (h'.keyTokens k).trans (h.keyTokens k), fun k => (h'.netTokens k).trans (h.netTokens k)⟩

section

variable {l : Limits} {c : ConnId} {now : Time} {size : Rat}

theorem keyHas_spec (b : BucketsOk l) (c : ConnId) (now : Time) (size : Rat) : ((keyHas l c now size).1 = true ↔
      l.redeliverKey.rate = 0 ∨ size ≤ l.redeliverKey.tokensAt (l.conns c).key now) ∧
      SameLists l (keyHas l c now size).2 ∧ BucketsOk (keyHas l c now size).2 ∧
      Static now l (keyHas l c now size).2 := by
  obtain ⟨pays, within, rate, tokens⟩ := BucketSet.has_spec b.key (l.conns c).key now size
  exact ⟨pays, ⟨rfl, rfl, rfl, rfl⟩, ⟨within, b.net⟩,
    ⟨fun _ => rfl, fun _ => rfl, rate, rfl, fun _ => rfl, tokens, fun _ => rfl⟩⟩

theorem prefixHas_spec (b : BucketsOk l) (p : String) (now : Time) (size : Rat) : ((prefixHas l p now size).1 = true ↔
      l.redeliverPrefix.rate = 0 ∨ size ≤ l.redeliverPrefix.tokensAt p now) ∧
      SameLists l (prefixHas l p now size).2 ∧ BucketsOk (prefixHas l p now size).2 ∧
      Static now l (prefixHas l p now size).2 := by
  obtain ⟨pays, within, rate, tokens⟩ := BucketSet.has_spec b.net p now size
  exact ⟨pays, ⟨rfl, rfl, rfl, rfl⟩, ⟨b.key, within⟩,
    ⟨fun _ => rfl, fun _ => rfl, rfl, rate, fun _ => rfl, fun _ => rfl, tokens⟩⟩

end

/-! ## A tick -/

/-- Why a waiting connection is passed over: it has no skipped row, its key is short of tokens,
or it is draining. -/
def Passed (l : Limits) (x : Tick) (c : ConnId) : Prop :=
  x.skipped c = 0 ∨ x.skippedThen c = 0 ∨ x.draining c = true ∨
    (l.redeliverKey.rate ≠ 0 ∧ l.redeliverKey.tokensAt (l.conns c).key x.now < x.skipped c)

/-- The prefix cannot pay the row of `c` beside what is `pending`. -/
def Short (l : Limits) (x : Tick) (p : String) (pending : Rat) (c : ConnId) : Prop :=
  l.redeliverPrefix.rate ≠ 0 ∧ l.redeliverPrefix.tokensAt p x.now < pending + x.skipped c

def rowsOf (x : Tick) (picked : List ConnId) : Rat := (picked.map fun c => (x.skipped c : Rat)).sum

/-- Of the connections in `list`, `picked` are served in this order: all of a first part but
those passed over. Their rows fit in the prefix's tokens beside what is `pending`, and the row of
the one after the first part does not. -/
structure Fair (l : Limits) (x : Tick) (p : String) (pending : Rat) (list picked : List ConnId) : Prop where
  front : ∃ first rest, list = first ++ rest ∧ picked.Sublist first ∧ (∀ c ∈ first, c ∉ picked → Passed l x c) ∧
    ∀ c ∈ rest.head?, Short l x p (pending + rowsOf x picked) c
  fits : picked ≠ [] → l.redeliverPrefix.rate = 0 ∨ pending + rowsOf x picked ≤ l.redeliverPrefix.tokensAt p x.now

section

variable {l l' : Limits} {x : Tick} {p : String} {c : ConnId} {pending : Rat} {list picked : List ConnId}

/-- Serving others does not change who is passed over. -/
theorem Static.passed (same : Static x.now l l') : Passed l' x c ↔ Passed l x c := by
  simp only [Passed, same.keyRate, same.key, same.keyTokens]

theorem Static.short (same : Static x.now l l') : Short l' x p pending c ↔ Short l x p pending c := by
  simp only [Short, same.netRate, same.netTokens]

theorem Static.fair (same : Static x.now l l') (h : Fair l' x p pending list picked) :
    Fair l x p pending list picked := by
  obtain ⟨⟨first, rest, eq, sub, passed, stop⟩, fits⟩ := h
  rw [same.netRate, same.netTokens] at fits
  exact ⟨⟨first, rest, eq, sub, fun c mem out => same.passed.mp (passed c mem out),
    fun c mem => same.short.mp (stop c mem)⟩, fits⟩

theorem Fair.skip (h : Fair l x p pending list picked) (passed : Passed l x c) :
    Fair l x p pending (c :: list) picked := by
  obtain ⟨⟨first, rest, rfl, sub, all, stop⟩, fits⟩ := h
  refine ⟨⟨c :: first, rest, rfl, sub.cons c, ?_, stop⟩, fits⟩
  intro y mem out
  obtain rfl | later := List.mem_cons.mp mem
  · exact passed
  · exact all y later out

theorem Fair.nil (l : Limits) (x : Tick) (p : String) (pending : Rat) : Fair l x p pending [] [] :=
  ⟨⟨[], [], rfl, .slnil, fun _ mem => (by cases mem), fun _ mem => (by cases mem)⟩, fun some_ => absurd rfl some_⟩

theorem Fair.stop (short : Short l x p pending c) : Fair l x p pending (c :: list) [] := by
  refine ⟨⟨[], c :: list, rfl, .slnil, fun _ mem => (by cases mem), fun y first => ?_⟩, fun some_ => absurd rfl some_⟩
  obtain rfl := Option.some.inj first
  simpa [rowsOf] using short

theorem Fair.pick (h : Fair l x p (pending + x.skipped c) list picked)
    (pays : l.redeliverPrefix.rate = 0 ∨ pending + x.skipped c ≤ l.redeliverPrefix.tokensAt p x.now) :
    Fair l x p pending (c :: list) (c :: picked) := by
  have rows : pending + rowsOf x (c :: picked) = pending + x.skipped c + rowsOf x picked := by
    rw [rowsOf, List.map_cons, List.sum_cons, ← add_assoc, rowsOf]
  obtain ⟨⟨first, rest, rfl, sub, all, stop⟩, fits⟩ := h
  refine ⟨⟨c :: first, rest, rfl, sub.cons_cons c, ?_, rows ▸ stop⟩, ?_⟩
  · intro y mem out
    obtain ⟨ne, out⟩ := not_or.mp (mt List.mem_cons.mpr out)
    exact all y ((List.mem_cons.mp mem).resolve_left ne) out
  · intro _
    rw [rows]
    cases picked with
    | nil => simpa [rowsOf] using pays
    | cons first rest => exact fits (List.cons_ne_nil _ _)

theorem serve_static (l : Limits) (p : String) (c : ConnId) (tick now : Time) : Static now l (serve l p c tick) := by
  have conns : ∀ y, ((removeWaitLocked l c).conns y).netPrefix = (l.conns y).netPrefix ∧
      ((removeWaitLocked l c).conns y).key = (l.conns y).key ∧
      ((removeWaitLocked l c).conns y).waitTicket = (l.conns y).waitTicket := by
    intro y
    unfold removeWaitLocked
    dsimp only
    split
    · by_cases same : y = c
      · subst same
        simp only [Limits.setWait, Limits.setConn, Function.update_self, and_self]
      · simp only [Limits.setWait, Limits.setConn, Function.update_of_ne same, and_self]
    · exact ⟨rfl, rfl, rfl⟩
  have buckets : (removeWaitLocked l c).redeliverKey = l.redeliverKey ∧
      (removeWaitLocked l c).redeliverPrefix = l.redeliverPrefix := by
    unfold removeWaitLocked
    dsimp only
    split <;> exact ⟨rfl, rfl⟩
  refine ⟨fun y => (conns y).1, fun y => (conns y).2.1, ?_, ?_, fun y => (conns y).2.2, fun k => ?_, fun k => ?_⟩
  · exact congrArg BucketSet.rate buckets.1
  · exact congrArg BucketSet.rate buckets.2
  · exact congrArg (fun b : BucketSet => b.tokensAt k now) buckets.1
  · exact congrArg (fun b : BucketSet => b.tokensAt k now) buckets.2

theorem serve_waitOf (h : Ok l) (mem : c ∈ l.waitOf p) (tick : Time) (p' : String) :
    (serve l p c tick).waitOf p' = if p' = p then (l.waitOf p).erase c else l.waitOf p' := by
  obtain ⟨isWaiting, rfl⟩ := (h.listed p c).mp mem
  change (removeWaitLocked l c).waitOf p' = _
  unfold removeWaitLocked
  simp only [isWaiting, if_true]
  rw [waitOf_setWait]
  rfl

theorem serve_buckets (b : BucketsOk l) (p : String) (c : ConnId) (tick : Time) : BucketsOk (serve l p c tick) := by
  unfold serve removeWaitLocked
  dsimp only
  split <;> exact ⟨b.key, b.net⟩

/-- Who is served from now still is in line, and so is everyone else. -/
theorem serve_inLine (here : (l.conns c).netPrefix = p) (tick : Time) {y : ConnId} (h : l.InLine y) :
    (serve l p c tick).InLine y := by
  have conns : y ≠ c → (serve l p c tick).conns y = l.conns y := fun ne => by
    unfold serve removeWaitLocked
    dsimp only
    split
    · exact Function.update_of_ne ne ..
    · rfl
  have served (q : String) : (serve l p c tick).servedOf q = if q = p then (l.servedOf p).insert c tick
      else l.servedOf q := by
    have same : (removeWaitLocked l c).servedOf = l.servedOf := by
      unfold removeWaitLocked
      dsimp only
      split <;> rfl
    rw [serve, servedOf_setServed, same]
  by_cases same : y = c
  · subst same
    refine .inr ?_
    rw [Limits.isServed, (serve_static l p y tick 0).netPrefix, here, served, if_pos rfl]
    exact (AList.mem_insert _).mpr (.inl rfl)
  · rw [Limits.InLine, Limits.isServed, conns same, served]
    refine h.imp_right fun inServed => ?_
    split
    · next at_p => exact (AList.mem_insert _).mpr (.inr (at_p ▸ inServed))
    · exact inServed

structure Kept (now : Time) (l l' : Limits) : Prop where
  ok : Ok l'
  buckets : BucketsOk l'
  static : Static now l l'

structure Ticked (now : Time) (l l' : Limits) : Prop extends Kept now l l' where
  line : ∀ c, l.InLine c → l'.InLine c

/-- A tick after changes that keep the lines. -/
theorem Ticked.after {now : Time} {l'' : Limits} (h : Ticked now l' l'') (static : Static now l l')
    (line : ∀ c, l.InLine c → l'.InLine c) : Ticked now l l'' :=
  ⟨⟨h.ok, h.buckets, static.trans h.static⟩, fun c inLine => h.line c (line c inLine)⟩

/-- Being in line reads the connection and the served lists only. -/
theorem Limits.InLine.same (h : l.InLine c) (conn : l'.conns c = l.conns c)
    (served : l'.redeliverServed = l.redeliverServed) :
    l'.InLine c := by
  rwa [Limits.InLine, Limits.isServed, Limits.servedOf, conn, served]

/-- With the same lists the same connections are in line. -/
theorem SameLists.inLine (same : SameLists l l') (c : ConnId) (h : l.InLine c) : l'.InLine c :=
  h.same (congrFun same.conns c) same.served

/-- The walk of a list whose connections all wait in prefix `p`. -/
theorem walk_spec (x : Tick) (p : String) (list : List ConnId) (pending : Rat) (l : Limits) (ok : Ok l)
    (b : BucketsOk l) (waits : ∀ c ∈ list, c ∈ l.waitOf p) (nodup : list.Nodup) :
    Ticked x.now l (walk x p list pending l).1 ∧ Fair l x p pending list (walk x p list pending l).2 ∧
      ∀ p', p' ≠ p → (walk x p list pending l).1.waitOf p' = l.waitOf p' := by
  induction list generalizing pending l with
  | nil => exact ⟨⟨⟨ok, b, .refl _ _⟩, fun _ => id⟩, .nil .., fun _ _ => rfl⟩
  | cons c rest ih =>
    obtain ⟨notLater, nodup⟩ := List.nodup_cons.mp nodup
    have later : ∀ y ∈ rest, y ∈ l.waitOf p := fun y mem => waits y (List.mem_cons_of_mem _ mem)
    rw [walk]
    split
    · next none_ =>
      obtain ⟨kept, fair, others⟩ := ih pending l ok b later nodup
      exact ⟨kept, fair.skip (.inl none_), others⟩
    · obtain ⟨pays, same, b₁, static₁⟩ := keyHas_spec b c x.now (x.skipped c)
      have ok₁ := ok.same same
      have waits₁ : ∀ q, (keyHas l c x.now (x.skipped c)).2.waitOf q = l.waitOf q := fun q => rfl
      dsimp only
      split
      · next short =>
        obtain ⟨kept, fair, others⟩ := ih pending _ ok₁ b₁ later nodup
        refine ⟨kept.after static₁ same.inLine, (static₁.fair fair).skip ?_, others⟩
        rw [pays, not_or, not_le] at short
        exact .inr (.inr (.inr short))
      · obtain ⟨netPays, same₂, b₂, static₂⟩ := prefixHas_spec b₁ p x.now (pending + x.skipped c)
        have ok₂ := ok₁.same same₂
        have static := static₁.trans static₂
        have line : ∀ c, l.InLine c → _ := fun y inLine => same₂.inLine y (same.inLine y inLine)
        split
        · next short =>
          rw [netPays, not_or, not_le] at short
          exact ⟨⟨⟨ok₂, b₂, static⟩, line⟩, .stop (static₁.short.mp short), fun _ _ => rfl⟩
        · next enough =>
          rw [not_not, netPays] at enough
          split
          · next busy =>
            obtain ⟨kept, fair, others⟩ := ih pending _ ok₂ b₂ later nodup
            refine ⟨kept.after static line, (static.fair fair).skip ?_, others⟩
            by_cases drains : x.draining c = true
            · exact .inr (.inr (.inl drains))
            · exact .inr (.inl (by simpa [Tick.start, drains] using busy))
          · have here : c ∈
                (prefixHas (keyHas l c x.now (x.skipped c)).2 p x.now (pending + x.skipped c)).2.waitOf p :=
              waits c List.mem_cons_self
            have still : ∀ y ∈ rest, y ∈ (serve (prefixHas (keyHas l c x.now (x.skipped c)).2 p x.now
                (pending + x.skipped c)).2 p c x.tick).waitOf p := by
              intro y mem
              have ne : y ≠ c := by
                rintro rfl
                exact notLater mem
              rw [serve_waitOf ok₂ here, if_pos rfl]
              exact (List.mem_erase_of_ne ne).mpr (later y mem)
            have static₃ := static.trans (serve_static _ p c x.tick x.now)
            obtain ⟨kept, fair, others⟩ :=
              ih (pending + x.skipped c) _ (ok₂.serve here x.tick) (serve_buckets b₂ p c x.tick) still nodup
            refine ⟨kept.after static₃ fun y inLine =>
              serve_inLine ((ok₂.listed p c).mp here).2 x.tick (line y inLine), ?_, ?_⟩
            · apply (static₃.fair fair).pick
              rwa [static₁.netRate, static₁.netTokens] at enough
            · intro q other
              rw [others q other, serve_waitOf ok₂ here, if_neg other]
              rfl

theorem Ok.waitNodup (h : Ok l) (p : String) : (l.waitOf p).Nodup := (h.sorted p).imp fun less same => by
  simp [same] at less

theorem walks_spec (x : Tick) (ps : List String) (l : Limits) (ok : Ok l) (b : BucketsOk l) (nodup : ps.Nodup) :
    Ticked x.now l (walks x ps l).1 ∧ (∀ c ∈ (walks x ps l).2, (l.conns c).netPrefix ∈ ps) ∧
      ∀ p ∈ ps, Fair l x p 0 (l.waitOf p) ((walks x ps l).2.filter fun c => (l.conns c).netPrefix = p) := by
  induction ps generalizing l with
  | nil => exact ⟨⟨⟨ok, b, .refl _ _⟩, fun _ => id⟩, fun _ mem => (by cases mem), fun _ mem => (by cases mem)⟩
  | cons q rest ih =>
    obtain ⟨notLater, nodup⟩ := List.nodup_cons.mp nodup
    obtain ⟨kept, fair, others⟩ := walk_spec x q (l.waitOf q) 0 l ok b (fun _ mem => mem) (ok.waitNodup q)
    obtain ⟨kept', from_, fairs⟩ := ih _ kept.ok kept.buckets nodup
    simp only [kept.static.netPrefix] at from_ fairs
    have inList : ∀ c ∈ (walk x q (l.waitOf q) 0 l).2, (l.conns c).netPrefix = q := by
      intro c mem
      obtain ⟨⟨first, tail, eq, sub, -⟩, -⟩ := fair
      exact ((ok.listed q c).mp (eq ▸ List.mem_append_left _ (sub.subset mem))).2
    rw [walks]
    refine ⟨kept'.after kept.static kept.line, ?_, ?_⟩
    · intro c mem
      obtain here | later := List.mem_append.mp mem
      · rw [inList c here]
        exact List.mem_cons_self
      · exact List.mem_cons_of_mem _ (from_ c later)
    · intro p mem
      rw [List.filter_append]
      obtain rfl | later := List.mem_cons.mp mem
      · have mine : (walk x p (l.waitOf p) 0 l).2.filter (fun c => (l.conns c).netPrefix = p) =
            (walk x p (l.waitOf p) 0 l).2 := List.filter_eq_self.mpr fun c mem => decide_eq_true (inList c mem)
        have none_ : (walks x rest (walk x p (l.waitOf p) 0 l).1).2.filter
            (fun c => (l.conns c).netPrefix = p) = [] := by
          refine List.filter_eq_nil_iff.mpr fun c mem isHere => ?_
          exact notLater (of_decide_eq_true isHere ▸ from_ c mem)
        rw [mine, none_, List.append_nil]
        exact fair
      · have other : p ≠ q := fun same => notLater (same ▸ later)
        have none_ : (walk x q (l.waitOf q) 0 l).2.filter (fun c => (l.conns c).netPrefix = p) = [] := by
          refine List.filter_eq_nil_iff.mpr fun c mem isHere => ?_
          exact other ((of_decide_eq_true isHere).symm.trans (inList c mem))
        rw [none_, List.nil_append, ← others p other]
        exact kept.static.fair (fairs p later)

theorem visits_nodup {order keys : List String} (nodup : keys.Nodup) : (visits order keys).Nodup := by
  refine List.Nodup.append (List.nodup_dedup _) (nodup.filter _) ?_
  intro p inOrder rest
  have listed := (List.mem_filter.mp (List.mem_dedup.mp inOrder)).1
  exact of_decide_eq_true (List.mem_filter.mp rest).2 listed

theorem mem_visits {order keys : List String} {p : String} (listed : p ∈ keys) : p ∈ visits order keys := by
  by_cases inOrder : p ∈ order
  · exact List.mem_append_left _ (List.mem_dedup.mpr (List.mem_filter.mpr ⟨inOrder, decide_eq_true listed⟩))
  · exact List.mem_append_right _ (List.mem_filter.mpr ⟨listed, decide_eq_true inOrder⟩)

theorem endTurn_static (l : Limits) (c : ConnId) (now : Time) :
    Static now l (endTurnLocked l c) ∧ (endTurnLocked l c).redeliverWait = l.redeliverWait ∧
      (BucketsOk l → BucketsOk (endTurnLocked l c)) := by
  unfold endTurnLocked
  dsimp only
  split
  · exact ⟨⟨fun _ => rfl, fun _ => rfl, rfl, rfl, fun _ => rfl, fun _ => rfl, fun _ => rfl⟩, rfl,
      fun b => ⟨b.key, b.net⟩⟩
  · exact ⟨.refl _ _, rfl, id⟩

theorem endOldTurns_kept (h : Ok l) (b : BucketsOk l) (tick now : Time) :
    Kept now l (endOldTurns l tick) ∧ (endOldTurns l tick).redeliverWait = l.redeliverWait := by
  unfold endOldTurns
  generalize (l.redeliverServed.entries.flatMap fun e => e.2.entries).filter _ = turns
  induction turns generalizing l with
  | nil => exact ⟨⟨h, b, .refl _ _⟩, rfl⟩
  | cons e rest ih =>
    obtain ⟨static, wait, buckets⟩ := endTurn_static l e.1 now
    obtain ⟨kept, wait'⟩ := ih (h.endTurnLocked e.1) (buckets b)
    exact ⟨⟨kept.ok, kept.buckets, static.trans kept.static⟩, wait'.trans wait⟩

theorem nextServedAt_spec (h : Ok l) (b : BucketsOk l) (x : Tick) : Kept x.now l (nextServedAt l x).1 ∧
      (∀ c, (endOldTurns l x.tick).InLine c → (nextServedAt l x).1.InLine c) ∧
      ∀ p, Fair l x p 0 (l.waitOf p) ((nextServedAt l x).2.filter fun c => (l.conns c).netPrefix = p) := by
  obtain ⟨kept, wait⟩ := endOldTurns_kept h b x.tick x.now
  obtain ⟨kept', from_, fairs⟩ := walks_spec x (visits x.order (endOldTurns l x.tick).redeliverWait.keys)
    (endOldTurns l x.tick) kept.ok kept.buckets (visits_nodup (AList.keys_nodup _))
  simp only [kept.static.netPrefix] at from_ fairs
  have lists : ∀ p, (endOldTurns l x.tick).waitOf p = l.waitOf p := fun p => by simp only [Limits.waitOf, wait]
  refine ⟨⟨kept'.ok, kept'.buckets, kept.static.trans kept'.static⟩, kept'.line, ?_⟩
  intro p
  by_cases visited : p ∈ visits x.order (endOldTurns l x.tick).redeliverWait.keys
  · rw [← lists p]
    exact kept.static.fair (fairs p visited)
  · have none_ : (nextServedAt l x).2.filter (fun c => (l.conns c).netPrefix = p) = [] := by
      refine List.filter_eq_nil_iff.mpr fun c mem isHere => ?_
      exact visited (of_decide_eq_true isHere ▸ from_ c mem)
    have empty : l.waitOf p = [] := by
      rw [← lists p, Limits.waitOf,
        AList.lookup_eq_none.mpr fun listed => visited (mem_visits (AList.mem_keys.mp listed))]
      rfl
    rw [none_, empty]
    exact .nil ..

/-! ## Runs -/

theorem joinWait_buckets (b : BucketsOk l) (c : ConnId) (back : Bool) : BucketsOk (joinWaitLocked l c back) := by
  unfold joinWaitLocked
  dsimp only
  split
  · exact b
  · split <;> exact ⟨b.key, b.net⟩

theorem takeBoth_buckets (b : BucketsOk l) (c : ConnId) (now : Time) {size : Rat} (pays : 0 ≤ size) :
    BucketsOk (takeBoth l c now size) :=
  ⟨b.key.take _ now pays, b.net.take _ now pays⟩

theorem redeliverAllowed_ok (h : Ok l) (b : BucketsOk l) (c : ConnId) (n : Nat) (now : Time) :
    Ok (redeliverAllowed l c n now).2 ∧ BucketsOk (redeliverAllowed l c n now).2 := by
  unfold redeliverAllowed
  dsimp only
  split
  · next queued => exact ⟨h.joinWaitLocked false queued.1, joinWait_buckets b c false⟩
  · obtain ⟨-, same, b₁, -⟩ := keyHas_spec b c now n
    split
    · exact ⟨h.same same, b₁⟩
    · obtain ⟨-, same₂, b₂, -⟩ := prefixHas_spec b₁ (l.conns c).netPrefix now n
      have ok₂ := (h.same same).same same₂
      split
      · split
        · exact ⟨(ok₂.endTurnLocked c).joinWaitLocked true (not_isServed_endTurn _ c),
            joinWait_buckets ((endTurn_static _ c now).2.2 b₂) c true⟩
        · next unserved => exact ⟨ok₂.joinWaitLocked false unserved, joinWait_buckets b₂ c false⟩
      · exact ⟨ok₂.same ⟨rfl, rfl, rfl, rfl⟩, takeBoth_buckets b₂ c now (Nat.cast_nonneg n)⟩

theorem reservable_spec {b : BucketSet} (within : b.Within) (key : String) (now : Time) {n : Rat} (least : 0 ≤ n) :
    0 ≤ (reservable b key now n).1 ∧ (reservable b key now n).2.Within := by
  unfold reservable
  split
  · refine ⟨le_min least ?_, within.refill key now⟩
    rw [BucketSet.refill_tokens within]
    exact (within.tokensAt key now).1
  · exact ⟨least, within⟩

theorem redeliverReserve_ok (h : Ok l) (b : BucketsOk l) (c : ConnId) (limit : Int) (now : Time) :
    Ok (redeliverReserve l c limit now).2 ∧ BucketsOk (redeliverReserve l c limit now).2 := by
  have start : (0 : Rat) ≤ (max limit 0 : Int) := by exact_mod_cast le_max_right limit 0
  obtain ⟨least, within⟩ := reservable_spec b.key (l.conns c).key now start
  obtain ⟨least', within'⟩ := reservable_spec b.net (l.conns c).netPrefix now least
  have whole : (0 : Rat) ≤ ((reservable l.redeliverPrefix (l.conns c).netPrefix now
      (reservable l.redeliverKey (l.conns c).key now (max limit 0 : Int)).1).1.floor : Int) := by
    exact_mod_cast Rat.le_floor_iff.mpr (by exact_mod_cast least')
  refine ⟨h.same ⟨rfl, rfl, rfl, rfl⟩, ?_⟩
  have bought : BucketsOk { l with
      redeliverKey := (reservable l.redeliverKey (l.conns c).key now (max limit 0 : Int)).2
      redeliverPrefix := (reservable l.redeliverPrefix (l.conns c).netPrefix now
        (reservable l.redeliverKey (l.conns c).key now (max limit 0 : Int)).1).2 } := ⟨within, within'⟩
  exact takeBoth_buckets bought c now whole

theorem redeliverRefund_ok (h : Ok l) (b : BucketsOk l) (c : ConnId) (n : Int) (now : Time) :
    Ok (redeliverRefund l c n now) ∧ BucketsOk (redeliverRefund l c n now) := by
  unfold redeliverRefund
  split
  · exact ⟨h, b⟩
  · next some_ =>
    have back : (0 : Rat) ≤ n := by exact_mod_cast (not_le.mp some_).le
    exact ⟨h.same ⟨rfl, rfl, rfl, rfl⟩, ⟨b.key.refund _ now back, b.net.refund _ now back⟩⟩

theorem redeliverForget_buckets (b : BucketsOk l) (c : ConnId) : BucketsOk (redeliverForget l c) := by
  rw [redeliverForget_eq]
  have removed : BucketsOk (removeWaitLocked l c) := by
    unfold removeWaitLocked
    dsimp only
    split <;> exact ⟨b.key, b.net⟩
  have ended := (endTurn_static (removeWaitLocked l c) c 0).2.2 removed
  exact ⟨ended.key, ended.net⟩

theorem step_ok (h : Ok l ∧ BucketsOk l) (e : Event) : Ok (step l e) ∧ BucketsOk (step l e) := by
  obtain ⟨ok, b⟩ := h
  cases e with
  | allowed c n now => exact redeliverAllowed_ok ok b c n now
  | reserve c limit now => exact redeliverReserve_ok ok b c limit now
  | refund c n now => exact redeliverRefund_ok ok b c n now
  | forget c => exact ⟨ok.redeliverForget c, redeliverForget_buckets b c⟩
  | done c => exact ⟨ok.endTurnLocked c, (endTurn_static l c 0).2.2 b⟩
  | nextServed x =>
    obtain ⟨kept, -, -⟩ := nextServedAt_spec ok b x
    exact ⟨kept.ok, kept.buckets⟩

theorem perHour_within (n : Nat) : (perHour n).Within :=
  ⟨by simp only [perHour]; positivity, Nat.cast_nonneg n, fun _ _ found => (by cases found)⟩

end

/-! ## Places -/

section

variable {l : Limits} {c y : ConnId}

end

theorem run_ok (perKey perPrefix : Nat) (netPrefix key : ConnId → String) (es : List Event) :
    Ok (run step (newLimits perKey perPrefix netPrefix key) es) ∧
    BucketsOk (run step (newLimits perKey perPrefix netPrefix key) es) :=
  run_invariant (motive := fun l : Limits => Ok l ∧ BucketsOk l) (fun _ e h => step_ok h e)
    ⟨ok_newLimits perKey perPrefix netPrefix key, ⟨perHour_within perKey, perHour_within perPrefix⟩⟩ es

end Agentnet.Relay.WaitLists
