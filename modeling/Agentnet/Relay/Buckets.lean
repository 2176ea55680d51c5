import Mathlib.Algebra.Order.Field.Rat
import Mathlib.Tactic.Positivity
import Mathlib.Tactic.Linarith
import Agentnet.Basic
import Agentnet.Lib.Dict

/-! `bucketSet` of the relay's limits: a token bucket per key. Tokens are rationals where the
code has float64. -/

namespace Agentnet.Relay

open Lib

structure TokenBucket where
  tokens : Rat
  last : Time
  deriving DecidableEq

/-- `bucketSet`, with exact tokens. -/
structure BucketSet where
  rate : Rat
  burst : Rat
  m : Dict String TokenBucket := ∅
  lastPrune : Time := 0

def bucketPruneThreshold : Nat := 1024

def seconds (d : Time) : Rat := d / second

namespace BucketSet

def prune (b : BucketSet) (now : Time) : BucketSet :=
  if bucketPruneThreshold ≤ b.m.entries.length ∧ minute ≤ now - b.lastPrune then
    { b with
      lastPrune := now
      m := b.m.keep fun _ tb => ¬b.burst ≤ tb.tokens + seconds (now - tb.last) * b.rate }
  else b

/-- A bucket brought up to `now`, created full. -/
def upTo (b : BucketSet) (now : Time) : Option TokenBucket → TokenBucket
  | none => ⟨b.burst, now⟩
  | some tb =>
    if tb.last < now then ⟨min b.burst (tb.tokens + seconds (now - tb.last) * b.rate), now⟩ else tb

def refill (b : BucketSet) (key : String) (now : Time) : TokenBucket × BucketSet :=
  let b := b.prune now
  let tb := b.upTo now (b.m.lookup key)
  (tb, { b with m := b.m.insert key tb })

def setTokens (b : BucketSet) (key : String) (tb : TokenBucket) (tokens : Rat) : BucketSet :=
  { b with m := b.m.insert key { tb with tokens := tokens } }

def has (b : BucketSet) (key : String) (now : Time) (cost : Rat) : Bool × BucketSet :=
  if b.rate ≤ 0 then (true, b)
  else
    let (tb, b) := b.refill key now
    (cost ≤ tb.tokens, b)

/-- `take`: whether the cost was there, and the set after it. -/
def take (b : BucketSet) (key : String) (now : Time) (cost : Rat) : Bool × BucketSet :=
  if b.rate ≤ 0 then (true, b)
  else
    let (tb, b) := b.refill key now
    if tb.tokens < cost then (false, b) else (true, b.setTokens key tb (tb.tokens - cost))

def refund (b : BucketSet) (key : String) (now : Time) (cost : Rat) : BucketSet :=
  if b.rate ≤ 0 then b
  else
    let (tb, b) := b.refill key now
    b.setTokens key tb (min b.burst (tb.tokens + cost))

/-! ## The tokens of a key at a time -/

/-- What the bucket of `key` holds at `now`. -/
def tokensAt (b : BucketSet) (key : String) (now : Time) : Rat := (b.upTo now (b.m.lookup key)).tokens

/-- Every bucket holds something between nothing and the burst, and the rate is one. -/
structure Within (b : BucketSet) : Prop where
  rate : 0 ≤ b.rate
  burst : 0 ≤ b.burst
  tokens : ∀ key tb, b.m.lookup key = some tb → 0 ≤ tb.tokens ∧ tb.tokens ≤ b.burst

theorem seconds_nonneg {d : Time} (h : 0 ≤ d) : 0 ≤ seconds d :=
  div_nonneg (by exact_mod_cast h) (by norm_num [second])

theorem seconds_nonpos {d : Time} (h : d ≤ 0) : seconds d ≤ 0 :=
  div_nonpos_of_nonpos_of_nonneg (by exact_mod_cast h) (by norm_num [second])

variable {b : BucketSet} {now : Time} {key key' : String} {cost : Rat}

variable {tb : TokenBucket} {key : String} {cost : Rat}

theorem upTo_full (rate : 0 ≤ b.rate) (most : tb.tokens ≤ b.burst)
    (full : b.burst ≤ tb.tokens + seconds (now - tb.last) * b.rate) : (b.upTo now (some tb)).tokens = b.burst := by
  unfold upTo
  dsimp only
  split
  · exact min_eq_left full
  · next late =>
    have past : now - tb.last ≤ 0 := Int.sub_nonpos_of_le (not_lt.mp late)
    have step : seconds (now - tb.last) * b.rate ≤ 0 := mul_nonpos_of_nonpos_of_nonneg (seconds_nonpos past) rate
    linarith

theorem prune_same (b : BucketSet) (now : Time) : (b.prune now).rate = b.rate ∧ (b.prune now).burst = b.burst := by
  unfold prune
  split <;> exact ⟨rfl, rfl⟩

theorem lookup_prune (b : BucketSet) (now : Time) (key : String) (h : (b.prune now).m.lookup key = some tb) :
    b.m.lookup key = some tb := by
  unfold prune at h
  split at h
  · exact (Dict.lookup_of_keep h).1
  · exact h

theorem upTo_congr {b b' : BucketSet} (rate : b.rate = b'.rate) (burst : b.burst = b'.burst) (now : Time)
    (o : Option TokenBucket) : b.upTo now o = b'.upTo now o := by
  cases o with
  | none => simp only [upTo, burst]
  | some tb => simp only [upTo, burst, rate]

theorem tokensAt_prune (within : b.Within) (key : String) : (b.prune now).tokensAt key now = b.tokensAt key now := by
  obtain ⟨sameRate, sameBurst⟩ := prune_same b now
  unfold tokensAt
  rw [upTo_congr sameRate sameBurst]
  cases kept : (b.prune now).m.lookup key with
  | some tb => rw [lookup_prune b now key kept]
  | none =>
    cases found : b.m.lookup key with
    | none => rfl
    | some tb =>
      -- the bucket was there and the prune deleted it
      have full : b.burst ≤ tb.tokens + seconds (now - tb.last) * b.rate := by
        by_contra short
        unfold prune at kept
        split at kept
        · simp only [Dict.lookup_keep, found, Option.filter_some, short, not_false_eq_true,
            decide_true, if_true] at kept
          cases kept
        · cases kept.symm.trans found
      rw [upTo_full within.rate (within.tokens key tb found).2 full]
      rfl

/-- Full buckets may go. -/
theorem Within.prune (within : b.Within) (now : Time) : (b.prune now).Within := by
  obtain ⟨sameRate, sameBurst⟩ := prune_same b now
  refine ⟨sameRate ▸ within.rate, sameBurst ▸ within.burst, ?_⟩
  intro key tb found
  rw [sameBurst]
  exact within.tokens key tb (lookup_prune b now key found)

/-- At any time a bucket has between none and the burst. -/
theorem Within.tokensAt (within : b.Within) (key : String) (now : Time) :
    0 ≤ b.tokensAt key now ∧ b.tokensAt key now ≤ b.burst := by
  unfold BucketSet.tokensAt
  cases found : b.m.lookup key with
  | none => exact ⟨within.burst, le_refl _⟩
  | some tb =>
    obtain ⟨least, most⟩ := within.tokens key tb found
    unfold upTo
    dsimp only
    split
    · next early =>
      have gained := mul_nonneg (seconds_nonneg (Int.sub_nonneg_of_le early.le)) within.rate
      exact ⟨le_min within.burst (add_nonneg least gained), min_le_left _ _⟩
    · exact ⟨least, most⟩

theorem upTo_upTo (b : BucketSet) (now : Time) (o : Option TokenBucket) :
    b.upTo now (some (b.upTo now o)) = b.upTo now o := by
  cases o with
  | none => simp only [upTo, lt_irrefl, if_false]
  | some tb =>
    by_cases early : tb.last < now
    · simp only [upTo, early, if_true, lt_irrefl, if_false]
    · simp only [upTo, early, if_false]

/-- A bucket set stays within its burst. -/
theorem Within.insert (within : b.Within) (least : 0 ≤ tb.tokens)
    (most : tb.tokens ≤ b.burst) : BucketSet.Within { b with m := b.m.insert key tb } := by
  refine ⟨within.rate, within.burst, ?_⟩
  intro key' tb' found
  obtain ⟨rfl, rfl⟩ | ⟨-, old⟩ := Dict.lookup_insert_cases found
  · exact ⟨least, most⟩
  · exact within.tokens key' tb' old

theorem Within.refill (within : b.Within) (key : String) (now : Time) : (b.refill key now).2.Within := by
  obtain ⟨least, most⟩ := (within.prune now).tokensAt key now
  exact (within.prune now).insert least most

theorem refill_tokens (within : b.Within) : (b.refill key now).1.tokens = b.tokensAt key now :=
  tokensAt_prune within key

theorem refill_same (b : BucketSet) (key : String) (now : Time) :
    (b.refill key now).2.rate = b.rate ∧ (b.refill key now).2.burst = b.burst := prune_same b now

theorem tokensAt_refill (within : b.Within) : (b.refill key now).2.tokensAt key' now = b.tokensAt key' now := by
  rw [← tokensAt_prune within key']
  change ((b.prune now).upTo now ((b.refill key now).2.m.lookup key')).tokens = _
  unfold BucketSet.tokensAt BucketSet.refill
  dsimp only
  by_cases same : key' = key
  · subst same
    rw [AList.lookup_insert, upTo_upTo]
  · rw [AList.lookup_insert_ne same]

theorem has_spec (within : b.Within) (key : String) (now : Time) (cost : Rat) :
    ((b.has key now cost).1 = true ↔ b.rate = 0 ∨ cost ≤ b.tokensAt key now) ∧
      (b.has key now cost).2.Within ∧ (b.has key now cost).2.rate = b.rate ∧
      ∀ key', (b.has key now cost).2.tokensAt key' now = b.tokensAt key' now := by
  unfold has
  by_cases off : b.rate ≤ 0
  · rw [if_pos off]
    exact ⟨by simp [le_antisymm off within.rate], within, rfl, fun _ => rfl⟩
  · rw [if_neg off]
    have on : b.rate ≠ 0 := fun zero => off zero.le
    refine ⟨?_, within.refill key now, (refill_same b key now).1, fun key' => tokensAt_refill within⟩
    simp only [decide_eq_true_eq, refill_tokens within, on, false_or]

/-- So it does when a cost is taken, refused or not. -/
theorem Within.take (within : b.Within) (key : String) (now : Time) (pays : 0 ≤ cost) :
    (b.take key now cost).2.Within := by
  unfold BucketSet.take
  split
  · exact within
  · dsimp only
    split
    · exact within.refill key now
    · next enough =>
      have held := within.tokensAt key now
      rw [← refill_tokens within] at held
      refine (within.refill key now).insert (sub_nonneg.mpr (not_lt.mp enough)) ?_
      rw [(refill_same b key now).2]
      exact (sub_le_self _ pays).trans held.2

theorem Within.refund (within : b.Within) (key : String) (now : Time) (back : 0 ≤ cost) :
    (b.refund key now cost).Within := by
  unfold BucketSet.refund
  split
  · exact within
  · dsimp only
    have held := within.tokensAt key now
    rw [← refill_tokens within] at held
    refine (within.refill key now).insert (le_min ?_ (add_nonneg held.1 back)) (min_le_left _ _)
    rw [(refill_same b key now).2]
    exact within.burst

theorem le_last_upTo (b : BucketSet) (now : Time) (o : Option TokenBucket) : now ≤ (b.upTo now o).last := by
  cases o with
  | none => exact le_rfl
  | some tb =>
    rw [upTo]
    split
    · exact le_rfl
    · next late => exact not_lt.mp late

theorem tokensAt_setTokens (b : BucketSet) {now : Time} (upToDate : now ≤ tb.last) (tokens : Rat) :
    (b.setTokens key tb tokens).tokensAt key now = tokens := by
  rw [tokensAt, setTokens]
  dsimp only
  rw [AList.lookup_insert, upTo, if_neg (not_lt.mpr upToDate)]

theorem le_last_refill (b : BucketSet) (key : String) (now : Time) : now ≤ (b.refill key now).1.last :=
  le_last_upTo _ now _

end BucketSet

end Agentnet.Relay
