import Agentnet.Relay.WaitLists

/-! What the token buckets bound, and the charges that go to the bucket of a key and to the one of its
prefix. -/

namespace Agentnet.Relay

open Lib

namespace BucketSet

def newBucketSet (rate burst : ℚ≥0) : BucketSet := { rate, burst }

def spend (b : BucketSet) (key : String) (now : Time) (cost : Rat) : BucketSet :=
  if b.rate ≤ 0 then b
  else
    let (tb, b) := b.refill key now
    b.setTokens key tb (max 0 (tb.tokens - cost))

inductive Op where
  | has (cost : ℚ≥0)
  | take (cost : ℚ≥0)
  | spend (cost : ℚ≥0)
  | refund (cost : ℚ≥0)
  | prune

structure Call where
  key : String
  now : Time
  op : Op

/-- The answer, which `spend`, `refund` and a prune do not have, and the set after it. -/
def call (b : BucketSet) (c : Call) : Bool × BucketSet :=
  match c.op with
  | .has cost => b.has c.key c.now cost
  | .take cost => b.take c.key c.now cost
  | .spend cost => (true, b.spend c.key c.now cost)
  | .refund cost => (true, b.refund c.key c.now cost)
  | .prune => (true, b.prune c.now)

/-- The set after a call. -/
def step (b : BucketSet) (c : Call) : BucketSet := (b.call c).2

/-- The tokens that a call takes from its bucket. A set with rate 0 has no limit and keeps none. -/
def taken (b : BucketSet) (c : Call) : Rat :=
  if b.rate ≤ 0 then 0
  else match c.op with
    | .take cost => if (b.take c.key c.now cost).1 then cost else 0
    | .spend cost => min cost (b.tokensAt c.key c.now)
    | .refund cost => -min (cost : Rat) (b.burst - b.tokensAt c.key c.now)
    | .has _ | .prune => 0

/-- The net tokens that `key` takes. -/
def net (key : String) : BucketSet → List Call → Rat
  | _, [] => 0
  | b, c :: cs => (if c.key = key then b.taken c else 0) + net key (b.step c) cs

/-- Full again, as `refill` finds it when it prunes. -/
def full (b : BucketSet) (key : String) (now : Time) : Prop :=
  ∃ tb, b.m.lookup key = some tb ∧ b.burst ≤ tb.tokens + seconds (now - tb.last) * b.rate

def drop (b : BucketSet) (key : String) : BucketSet := { b with m := b.m.erase key }

/-- What a run of calls is told. -/
def answers (b : BucketSet) (cs : List Call) : List Bool := outputs step (fun b c => [(b.call c).1]) b cs

/-! ## Time passes -/

/-- No bucket was brought up to a time after `t`. -/
def Past (t : Time) (b : BucketSet) : Prop := ∀ key tb, b.m.lookup key = some tb → tb.last ≤ t

section

variable {b b' : BucketSet} {key key' : String} {t now : Time}

theorem seconds_parts (x y z : Time) : seconds (z - x) = seconds (y - x) + seconds (z - y) := by
  simp only [seconds]
  push_cast
  ring

variable {tb : TokenBucket} {cost : Rat} {cs : List Call}

theorem upTo_tokens (most : tb.tokens ≤ b.burst) (late : tb.last ≤ now) :
    (b.upTo now (some tb)).tokens = min b.burst (tb.tokens + seconds (now - tb.last) * b.rate) := by
  rw [upTo]
  split
  · rfl
  · next same =>
    obtain rfl : tb.last = now := le_antisymm late (not_lt.mp same)
    simp [seconds, most]

theorem tokensAt_later (within : b.Within) (past : b.Past t) (le : t ≤ now) (key : String) :
    b.tokensAt key now = min b.burst (b.tokensAt key t + seconds (now - t) * b.rate) := by
  have gain := mul_nonneg (seconds_nonneg (Int.sub_nonneg_of_le le)) within.rate
  rw [tokensAt, tokensAt]
  cases found : b.m.lookup key with
  | none => exact (min_eq_left (le_add_of_nonneg_right gain)).symm
  | some tb =>
    have most := (within.tokens key tb found).2
    have late := past key tb found
    rw [upTo_tokens most (late.trans le), upTo_tokens most late, seconds_parts tb.last t now]
    rcases le_total b.burst (tb.tokens + seconds (t - tb.last) * b.rate) with h | h
    · rw [min_eq_left h, min_eq_left (by linarith), min_eq_left (by linarith)]
    · rw [min_eq_right h, add_mul, add_assoc]

theorem Past.mono (past : b.Past t) (le : t ≤ now) : b.Past now := fun key tb found => (past key tb found).trans le

theorem Past.insert (past : b.Past now) (last : tb.last ≤ now) : Past now { b with m := b.m.insert key tb } := by
  intro k tb' found
  obtain ⟨-, rfl⟩ | ⟨-, old⟩ := Dict.lookup_insert_cases found
  · exact last
  · exact past k tb' old

theorem last_upTo_le (late : ∀ tb ∈ b.m.lookup key, tb.last ≤ now) : (b.upTo now (b.m.lookup key)).last ≤ now := by
  cases found : b.m.lookup key with
  | none => exact le_rfl
  | some tb =>
    rw [upTo]
    split
    · exact le_rfl
    · exact late tb found

theorem Past.prune (past : b.Past now) (t : Time) : (b.prune t).Past now :=
  fun key _ found => past key _ (lookup_prune b t key found)

theorem Past.refill (past : b.Past now) (key : String) :
    (b.refill key now).1.last ≤ now ∧ (b.refill key now).2.Past now := by
  have last := last_upTo_le (b := b.prune now) fun tb found => past.prune now key tb found
  exact ⟨last, (past.prune now).insert last⟩

/-! ## One call -/

theorem tokensAt_setTokens_ne (b : BucketSet) (tokens : Rat) (other : key' ≠ key) :
    (b.setTokens key tb tokens).tokensAt key' now = b.tokensAt key' now := by
  simp only [tokensAt, setTokens, AList.lookup_insert_ne other]
  rfl

/-- What a call keeps, with what it leaves in the buckets. -/
structure Charged (now : Time) (key : String) (cost : Rat) (b b' : BucketSet) : Prop where
  rate : b'.rate = b.rate
  burst : b'.burst = b.burst
  within : b'.Within
  past : b.Past now → b'.Past now
  tokens : ∀ k, b'.tokensAt k now = b.tokensAt k now - if k = key then cost else 0

theorem Charged.none (within : b.Within) (now : Time) (key : String) : Charged now key 0 b b :=
  ⟨rfl, rfl, within, id, by simp⟩

theorem refill_charged (within : b.Within) (key : String) (now : Time) : Charged now key 0 b (b.refill key now).2 :=
  ⟨(refill_same b key now).1, (refill_same b key now).2, within.refill key now, fun past => (past.refill key).2,
    fun _ => by simp [tokensAt_refill within]⟩

/-- Every charge sets the tokens of the refilled bucket. -/
theorem setTokens_charged (within : b.Within) (key : String) (now : Time) {tokens : Rat} (least : 0 ≤ tokens)
    (most : tokens ≤ b.burst) :
    Charged now key (b.tokensAt key now - tokens) b
      ((b.refill key now).2.setTokens key (b.refill key now).1 tokens) := by
  obtain ⟨rate, burst, within', past, same⟩ := refill_charged within key now
  refine ⟨rate, burst, within'.insert least (burst ▸ most), fun h => (past h).insert (h.refill key).1, fun k => ?_⟩
  by_cases own : k = key
  · subst own
    simp [tokensAt_setTokens _ (le_last_refill b k now)]
  · rw [tokensAt_setTokens_ne _ _ own, same k, if_neg own]
    simp [own]

theorem call_charged (within : b.Within) (c : Call) : Charged c.now c.key (b.taken c) b (b.step c) := by
  obtain ⟨key, now, op⟩ := c
  have none_ := Charged.none within now key
  have held := within.tokensAt key now
  rw [taken, step, call]
  by_cases off : b.rate ≤ 0
  · cases op <;> simp [off, has, take, spend, refund, none_]
    exact ⟨(prune_same b now).1, (prune_same b now).2, within.prune now, fun past => past.prune now,
      fun k => by simp [tokensAt_prune within k]⟩
  · rw [if_neg off]
    cases op with
    | has cost =>
      simp only [has, if_neg off]
      exact refill_charged within key now
    | take cost =>
      simp only [take, if_neg off, refill_tokens within]
      by_cases short : b.tokensAt key now < cost
      · simp only [if_pos short]
        exact refill_charged within key now
      · simp only [if_neg short, if_true]
        have charged := setTokens_charged within key now (sub_nonneg.mpr (not_lt.mp short))
          ((sub_le_self _ cost.2).trans held.2)
        rwa [sub_sub_cancel] at charged
    | spend cost =>
      simp only [spend, if_neg off, refill_tokens within]
      rw [show min (cost : Rat) (b.tokensAt key now) = b.tokensAt key now - max 0
        (b.tokensAt key now - cost) by grind]
      exact setTokens_charged within key now (le_max_left _ _)
        (max_le within.burst ((sub_le_self _ cost.2).trans held.2))
    | refund cost =>
      simp only [refund, if_neg off, refill_tokens within, (refill_same b key now).2]
      rw [show -min (cost : Rat) (b.burst - b.tokensAt key now) = b.tokensAt key now - min b.burst
        (b.tokensAt key now + cost) by grind]
      exact setTokens_charged within key now (le_min within.burst (add_nonneg held.1 cost.2)) (min_le_left _ _)
    | prune =>
      exact ⟨(prune_same b now).1, (prune_same b now).2, within.prune now, fun past => past.prune now,
        fun k => by simp [tokensAt_prune within k]⟩

/-- The answer only depends on what the bucket holds. -/
theorem call_answer (within : b.Within) (c : Call) : (b.call c).1 = true ↔
    ∀ cost, c.op = .has cost ∨ c.op = .take cost → b.rate = 0 ∨ cost ≤ b.tokensAt c.key c.now := by
  obtain ⟨key, now, op⟩ := c
  have zero : b.rate ≤ 0 ↔ b.rate = 0 := ⟨fun low => le_antisymm low within.rate, le_of_eq⟩
  cases op with
  | has cost => simp [call, (has_spec within key now cost).1]
  | take cost =>
    simp only [call, take, refill_tokens within, zero]
    by_cases off : b.rate = 0
    · simp [off]
    · by_cases short : b.tokensAt key now < cost
      · simp [off, short]
      · simp [off, short, not_lt.mp short]
  | spend cost | refund cost | prune => simp [call]

/-- The charges of two calls add up. -/
theorem Charged.trans {b'' : BucketSet} {cost' : Rat} (h : Charged now key cost b b')
    (h' : Charged now key cost' b' b'') :
    Charged now key (cost + cost') b b'' := by
  refine ⟨h'.rate.trans h.rate, h'.burst.trans h.burst, h'.within, fun past => h'.past (h.past past), fun k => ?_⟩
  rw [h'.tokens, h.tokens]
  split <;> ring

theorem has_charged (within : b.Within) (key : String) (now : Time) (cost : Rat) :
    Charged now key 0 b (b.has key now cost).2 := by
  rw [has]
  split
  · exact .none within now key
  · exact refill_charged within key now

/-- What a bucket that holds `cost` pays. -/
def price (b : BucketSet) (cost : Rat) : Rat := if b.rate ≤ 0 then 0 else cost

/-- `take` after `has` has found the tokens. -/
theorem take_charged (within : b.Within) (pays : 0 ≤ cost) (found : (b.has key now cost).1 = true) :
    Charged now key (b.price cost) b ((b.has key now cost).2.take key now cost).2 := by
  have first := has_charged within key now cost
  have charged := call_charged first.within ⟨key, now, .take ⟨cost, pays⟩⟩
  have second := (call_answer first.within ⟨key, now, .take ⟨cost, pays⟩⟩).mpr
  rw [first.rate, first.tokens] at second
  have answer := second fun _ same => by
    obtain same | same := same
    · cases same
    · cases same
      simpa using (has_spec within key now cost).1.mp found
  have all := first.trans charged
  simp only [call] at answer
  simp only [zero_add, taken, first.rate, answer, if_true] at all
  exact all

theorem spend_charged (within : b.Within) (key : String) (now : Time) (pays : 0 ≤ cost) :
    Charged now key (b.price (min cost (b.tokensAt key now))) b (b.spend key now cost) :=
  call_charged within ⟨key, now, .spend ⟨cost, pays⟩⟩

/-! ## Runs -/

theorem newBucketSet_within (rate burst : ℚ≥0) : (newBucketSet rate burst).Within :=
  ⟨rate.2, burst.2, fun _ _ found => by cases found⟩

theorem run_within (rate burst : ℚ≥0) (cs : List Call) : (run step (newBucketSet rate burst) cs).Within :=
  run_invariant (motive := Within) (fun _ c within => (call_charged within c).within)
    (newBucketSet_within rate burst) cs

theorem run_same (rate burst : ℚ≥0) (cs : List Call) :
    (run step (newBucketSet rate burst) cs).rate = rate ∧ (run step (newBucketSet rate burst) cs).burst = burst :=
  (run_invariant (motive := fun b : BucketSet => b.Within ∧ b.rate = rate ∧ b.burst = burst)
    (fun _ c h => have charged := call_charged h.1 c
      ⟨charged.within, charged.rate.trans h.2.1, charged.burst.trans h.2.2⟩)
    ⟨newBucketSet_within rate burst, rfl, rfl⟩ cs).2

theorem run_past (rate burst : ℚ≥0) {t : Time} (clocked : Clocked Call.now t cs) :
    (run step (newBucketSet rate burst) cs).Past (clock Call.now t cs) :=
  (run_clocked (motive := fun t (b : BucketSet) => b.Within ∧
    b.Past t) (fun _ _ c h le => have charged := call_charged h.1 c
      ⟨charged.within, charged.past (h.2.mono le)⟩)
    ⟨newBucketSet_within rate burst, fun _ _ found => by cases found⟩ clocked).2

/-- What is taken and what is left came from the tokens at the start and the time since. -/
theorem net_add_left (key : String) {b : BucketSet} {t stop : Time} (within : b.Within) (past : b.Past t)
    (clocked : Clocked Call.now t cs) (le : t ≤ stop) (ends : ∀ c ∈ cs, c.now ≤ stop) :
    net key b cs + (run step b cs).tokensAt key stop ≤ b.tokensAt key t + seconds (stop - t) * b.rate := by
  induction cs generalizing b t with
  | nil =>
    rw [net, zero_add, run_nil, tokensAt_later within past le key]
    exact min_le_right _ _
  | cons c cs ih =>
    have charged := call_charged within c
    have rest := ih charged.within (charged.past (past.mono clocked.1)) clocked.2 (ends c (List.mem_cons_self ..))
      fun d mem => ends d (List.mem_cons_of_mem _ mem)
    have first : b.tokensAt key c.now ≤ b.tokensAt key t + seconds (c.now - t) * b.rate := by
      rw [tokensAt_later within past clocked.1 key]
      exact min_le_right _ _
    rw [charged.tokens, charged.rate] at rest
    rw [net, run_cons, seconds_parts t c.now stop, add_mul]
    simp only [eq_comm (a := key)] at rest
    linarith

/-- Two sets that hold the same at `t`. -/
structure Alike (t : Time) (b b' : BucketSet) : Prop where
  within : b.Within ∧ b'.Within
  past : b.Past t ∧ b'.Past t
  rate : b'.rate = b.rate
  burst : b'.burst = b.burst
  tokens : ∀ key, b'.tokensAt key t = b.tokensAt key t

theorem Alike.later (h : Alike t b b') (le : t ≤ now) : Alike now b b' := by
  refine ⟨h.within, ⟨h.past.1.mono le, h.past.2.mono le⟩, h.rate, h.burst, fun key => ?_⟩
  rw [tokensAt_later h.within.1 h.past.1 le, tokensAt_later h.within.2 h.past.2 le, h.tokens, h.rate, h.burst]

/-- Sets that look alike at the time answer alike, and stay so. -/
theorem Alike.call (c : Call) (h : Alike c.now b b') :
    (b'.call c).1 = (b.call c).1 ∧ Alike c.now (b.step c) (b'.step c) := by
  have same : (b'.call c).1 = (b.call c).1 := by
    rw [Bool.eq_iff_iff, call_answer h.within.1, call_answer h.within.2, h.rate, h.tokens]
  have taken_ : b'.taken c = b.taken c := by
    cases op : c.op with
    | take cost =>
      simp only [BucketSet.call, op] at same
      simp only [taken, op, same, h.rate]
    | has cost | spend cost | refund cost | prune => simp only [taken, op, h.rate, h.burst, h.tokens]
  have charged := call_charged h.within.1 c
  have charged' := call_charged h.within.2 c
  refine ⟨same, ⟨charged.within, charged'.within⟩, ⟨charged.past h.past.1, charged'.past h.past.2⟩, ?_,
    ?_, fun key => ?_⟩
  · rw [charged.rate, charged'.rate, h.rate]
  · rw [charged.burst, charged'.burst, h.burst]
  · rw [charged.tokens, charged'.tokens, h.tokens, taken_]

theorem Alike.answers (h : Alike t b b') (clocked : Clocked Call.now t cs) : b'.answers cs = b.answers cs := by
  suffices ∀ out, (run (traced step fun b c => [(b.call c).1]) (b', out) cs).2 =
      (run (traced step fun b c => [(b.call c).1]) (b, out) cs).2 from this []
  induction cs generalizing b b' t with
  | nil => intro out; rfl
  | cons c cs ih =>
    intro out
    obtain ⟨same, next⟩ := (h.later clocked.1).call c
    simp only [run_cons, traced, same]
    exact ih next clocked.2 _

theorem alike_drop (within : b.Within) (past : b.Past t) (is_full : b.full key t) : Alike t b (b.drop key) := by
  obtain ⟨tb, found, enough⟩ := is_full
  have kept : ∀ {k v}, (b.drop key).m.lookup k = some v → b.m.lookup k = some v :=
    fun found => (Dict.lookup_of_erase found).2
  refine ⟨⟨within, within.rate, within.burst, fun k v h => within.tokens k v (kept h)⟩,
    ⟨past, fun k v h => past k v (kept h)⟩, rfl, rfl, fun k => ?_⟩
  by_cases own : k = key
  · subst own
    rw [tokensAt, tokensAt, found, upTo_full within.rate (within.tokens k tb found).2 enough, drop,
      AList.lookup_erase]
    rfl
  · simp only [tokensAt, drop, AList.lookup_erase_ne own]
    rfl

end

end BucketSet

/-! ## Charges of a key and its prefix -/

inductive RateLimit where
  | keyEnvs | prefixEnvs | keyBytes | prefixBytes
  deriving DecidableEq

structure Rates where
  keyEnvs : BucketSet
  prefixEnvs : BucketSet
  keyBytes : BucketSet
  prefixBytes : BucketSet

def smallFrame : Nat := 1024

namespace Rates

def sendAllowed (r : Rates) (key netPrefix : String) (now : Time) : Option RateLimit × Rates :=
  let (keyHas, b) := r.keyEnvs.has key now 1
  let r := { r with keyEnvs := b }
  if !keyHas then (some .keyEnvs, r)
  else
    let (prefixHas, b) := r.prefixEnvs.has netPrefix now 1
    let r := { r with prefixEnvs := b }
    if !prefixHas then (some .prefixEnvs, r)
    else (none, { r with
      keyEnvs := (r.keyEnvs.take key now 1).2
      prefixEnvs := (r.prefixEnvs.take netPrefix now 1).2 })

/-- The byte buckets that a frame over `smallFrame` needs. -/
def frameFits (r : Rates) (key netPrefix : String) (n : Nat) (now : Time) : Option RateLimit × Rates :=
  if n ≤ smallFrame then (none, r)
  else
    let (keyHas, b) := r.keyBytes.has key now n
    let r := { r with keyBytes := b }
    if !keyHas then (some .keyBytes, r)
    else
      let (prefixHas, b) := r.prefixBytes.has netPrefix now n
      (if !prefixHas then some .prefixBytes else none, { r with prefixBytes := b })

def frameAllowed (r : Rates) (key netPrefix : String) (n : Nat) (now : Time) : Option RateLimit × Rates :=
  match r.frameFits key netPrefix n now with
  | (some refused, r) => (some refused, r)
  | (none, r) => (none, { r with
      keyBytes := r.keyBytes.spend key now n
      prefixBytes := r.prefixBytes.spend netPrefix now n })

end Rates

/-- The sets of keys and of prefixes are both charged, or neither. -/
def BothOrNeither {ρ : Type} (refused : Option ρ) (now : Time) (key netPrefix : String) (keyCost prefixCost : Rat)
    (b b' c c' : BucketSet) : Prop :=
  (refused = none ∧ BucketSet.Charged now key (b.price keyCost) b b' ∧
    BucketSet.Charged now netPrefix (c.price prefixCost) c c') ∨
    (refused ≠ none ∧ BucketSet.Charged now key 0 b b' ∧ BucketSet.Charged now netPrefix 0 c c')

namespace Rates

variable {r : Rates} {key netPrefix : String} {now : Time}

/-- Every set is within its bounds. -/
structure Ok (r : Rates) : Prop where
  keyEnvs : r.keyEnvs.Within
  prefixEnvs : r.prefixEnvs.Within
  keyBytes : r.keyBytes.Within
  prefixBytes : r.prefixBytes.Within

/-- Every set is one that calls have made. -/
def Reached (r : Rates) : Prop :=
  ∀ b ∈ [r.keyEnvs, r.prefixEnvs, r.keyBytes, r.prefixBytes], ∃ rate burst cs,
  b = run BucketSet.step (BucketSet.newBucketSet rate burst) cs

/-- Reachable states are sound. -/
theorem Reached.ok (reached : r.Reached) : r.Ok := by
  have within : ∀ b ∈ [r.keyEnvs, r.prefixEnvs, r.keyBytes, r.prefixBytes], b.Within := by
    intro b mem
    obtain ⟨rate, burst, cs, rfl⟩ := reached b mem
    exact BucketSet.run_within rate burst cs
  exact ⟨within _ (by simp), within _ (by simp), within _ (by simp), within _ (by simp)⟩

theorem sendAllowed_both (ok : r.Ok) : BothOrNeither (r.sendAllowed key netPrefix now).1 now key netPrefix 1 1
    r.keyEnvs (r.sendAllowed key netPrefix now).2.keyEnvs r.prefixEnvs
      (r.sendAllowed key netPrefix now).2.prefixEnvs := by
  have keyCharged := BucketSet.has_charged ok.keyEnvs key now 1
  have prefixCharged := BucketSet.has_charged ok.prefixEnvs netPrefix now 1
  rw [sendAllowed]
  dsimp only
  cases keyHas : (r.keyEnvs.has key now 1).1 with
  | false => exact .inr ⟨(by simp), keyCharged, .none ok.prefixEnvs now netPrefix⟩
  | true =>
    cases prefixHas : (r.prefixEnvs.has netPrefix now 1).1 with
    | false => exact .inr ⟨(by simp), keyCharged, prefixCharged⟩
    | true => exact .inl ⟨rfl, BucketSet.take_charged ok.keyEnvs zero_le_one keyHas,
        BucketSet.take_charged ok.prefixEnvs zero_le_one prefixHas⟩

theorem frameFits_none (key netPrefix : String) (now : Time) (ok : r.Ok) (n : Nat) :
    BucketSet.Charged now key 0 r.keyBytes (r.frameFits key netPrefix n now).2.keyBytes ∧
      BucketSet.Charged now netPrefix 0 r.prefixBytes (r.frameFits key netPrefix n now).2.prefixBytes := by
  have keyCharged := BucketSet.has_charged ok.keyBytes key now n
  have prefixCharged := BucketSet.has_charged ok.prefixBytes netPrefix now n
  have none_ := BucketSet.Charged.none ok.prefixBytes now netPrefix
  rw [frameFits]
  split
  · exact ⟨.none ok.keyBytes now key, none_⟩
  · dsimp only
    split
    · exact ⟨keyCharged, none_⟩
    · exact ⟨keyCharged, prefixCharged⟩

theorem frameAllowed_both (ok : r.Ok) (n : Nat) :
    BothOrNeither (r.frameAllowed key netPrefix n now).1 now key netPrefix
      (min n (r.keyBytes.tokensAt key now)) (min n (r.prefixBytes.tokensAt netPrefix now))
      r.keyBytes (r.frameAllowed key netPrefix n now).2.keyBytes r.prefixBytes
        (r.frameAllowed key netPrefix n now).2.prefixBytes := by
  obtain ⟨keyCharged, prefixCharged⟩ := frameFits_none key netPrefix now ok n
  rw [frameAllowed]
  split
  · next refused r' fits =>
    rw [fits] at keyCharged prefixCharged
    exact .inr ⟨(by simp), keyCharged, prefixCharged⟩
  · next r' fits =>
    rw [fits] at keyCharged prefixCharged
    have keyPaid := keyCharged.trans (BucketSet.spend_charged keyCharged.within key now (Nat.cast_nonneg n))
    have prefixPaid :=
      prefixCharged.trans (BucketSet.spend_charged prefixCharged.within netPrefix now (Nat.cast_nonneg n))
    rw [BucketSet.price, keyCharged.rate, keyCharged.tokens, if_pos rfl, sub_zero, zero_add] at keyPaid
    rw [BucketSet.price, prefixCharged.rate, prefixCharged.tokens, if_pos rfl, sub_zero, zero_add] at prefixPaid
    exact .inl ⟨rfl, keyPaid, prefixPaid⟩

end Rates

namespace WaitLists

variable {l : Limits} {c : ConnId}

theorem joinWait_sets (l : Limits) (c : ConnId) (back : Bool) :
    (joinWaitLocked l c back).redeliverKey = l.redeliverKey ∧
    (joinWaitLocked l c back).redeliverPrefix = l.redeliverPrefix := by
  rw [joinWaitLocked]
  dsimp only
  split
  · exact ⟨rfl, rfl⟩
  · split <;> exact ⟨rfl, rfl⟩

theorem endTurn_sets (l : Limits) (c : ConnId) :
    (endTurnLocked l c).redeliverKey = l.redeliverKey ∧ (endTurnLocked l c).redeliverPrefix = l.redeliverPrefix := by
  rw [endTurnLocked]
  split <;> exact ⟨rfl, rfl⟩

theorem redeliverAllowed_both (b : BucketsOk l) (c : ConnId) (n : Nat) (now : Time) :
    BothOrNeither (redeliverAllowed l c n now).1 now (l.conns c).key (l.conns c).netPrefix n n
      l.redeliverKey (redeliverAllowed l c n now).2.redeliverKey l.redeliverPrefix
        (redeliverAllowed l c n now).2.redeliverPrefix := by
  have keyCharged := BucketSet.has_charged b.key (l.conns c).key now n
  have prefixCharged := BucketSet.has_charged b.net (l.conns c).netPrefix now n
  have none_ := BucketSet.Charged.none b.net now (l.conns c).netPrefix
  rw [redeliverAllowed]
  dsimp only
  split
  · simp only [joinWait_sets]
    exact .inr ⟨(by simp), .none b.key now _, none_⟩
  · cases keyHas_ : (l.redeliverKey.has (l.conns c).key now n).1 with
    | false =>
      simp only [keyHas, keyHas_]
      exact .inr ⟨(by simp), keyCharged, none_⟩
    | true =>
      cases prefixHas_ : (l.redeliverPrefix.has (l.conns c).netPrefix now n).1 with
      | false =>
        simp only [keyHas, prefixHas, keyHas_, prefixHas_]
        refine .inr ⟨?_, ?_⟩
        · simp only [not_true_eq_false, if_false, Bool.false_eq_true, not_false_eq_true, if_true]
          split <;> simp
        · simp only [not_true_eq_false, if_false, Bool.false_eq_true, not_false_eq_true, if_true]
          split
          · simp only [joinWait_sets, endTurn_sets]
            exact ⟨keyCharged, prefixCharged⟩
          · simp only [joinWait_sets]
            exact ⟨keyCharged, prefixCharged⟩
      | true =>
        simp only [keyHas, prefixHas, keyHas_, prefixHas_]
        exact .inl ⟨rfl, BucketSet.take_charged b.key (Nat.cast_nonneg n) keyHas_,
          BucketSet.take_charged b.net (Nat.cast_nonneg n) prefixHas_⟩

end WaitLists

open BucketSet in
/-- What one key takes in an interval; a full bucket may be dropped; a charge goes to both sets or to neither. -/
theorem buckets_bound_rates : (∀ (rate burst : ℚ≥0) (t : Time) (es fs : List Call), Clocked Call.now t (es ++ fs) →
      ∀ key first last, first ≤ last → (∀ c ∈ fs, first ≤ c.now ∧ c.now ≤ last) →
        net key (run BucketSet.step (newBucketSet rate burst) es) fs ≤ burst + rate * seconds (last - first)) ∧
    (∀ (rate burst : ℚ≥0) (t now : Time) (es fs : List Call), Clocked Call.now t es → clock Call.now t es ≤ now →
      Clocked Call.now now fs → ∀ key, (run BucketSet.step (newBucketSet rate burst) es).full key now →
        ((run BucketSet.step (newBucketSet rate burst) es).drop key).answers fs =
          (run BucketSet.step (newBucketSet rate burst) es).answers fs) ∧
    (∀ r : Rates, r.Reached →
      ∀ key netPrefix now, BothOrNeither (r.sendAllowed key netPrefix now).1 now key netPrefix 1 1
        r.keyEnvs (r.sendAllowed key netPrefix now).2.keyEnvs r.prefixEnvs
          (r.sendAllowed key netPrefix now).2.prefixEnvs ∧
      ∀ n, BothOrNeither (r.frameAllowed key netPrefix n now).1 now key netPrefix
        (min n (r.keyBytes.tokensAt key now)) (min n (r.prefixBytes.tokensAt netPrefix now))
        r.keyBytes (r.frameAllowed key netPrefix n now).2.keyBytes r.prefixBytes
          (r.frameAllowed key netPrefix n now).2.prefixBytes) ∧
    ∀ perKey perPrefix netPrefix key es l,
    run WaitLists.step (WaitLists.newLimits perKey perPrefix netPrefix key) es = l →
      ∀ c n now, BothOrNeither (WaitLists.redeliverAllowed l c n now).1 now (l.conns c).key (l.conns c).netPrefix n n
        l.redeliverKey (WaitLists.redeliverAllowed l c n now).2.redeliverKey
        l.redeliverPrefix (WaitLists.redeliverAllowed l c n now).2.redeliverPrefix := by
  refine ⟨?_, ?_, ?_, ?_⟩
  · intro rate burst t es fs clocked key first last le inside
    obtain ⟨before, after⟩ := Clocked.append.mp clocked
    have within := run_within rate burst es
    -- the interval begins at its first call, where the buckets are known to be past
    cases fs with
    | nil =>
      have gain := mul_nonneg rate.2 (seconds_nonneg (Int.sub_nonneg_of_le le))
      exact add_nonneg burst.2 gain
    | cons c fs =>
      have starts := inside c (List.mem_cons_self ..)
      have past := (run_past rate burst before).mono after.1
      have clocked : Clocked Call.now c.now (c :: fs) := ⟨le_rfl, after.2⟩
      have bound := net_add_left key within past clocked starts.2 fun d mem => (inside d mem).2
      have least := ((run_invariant (motive := Within)
          (fun _ c within => (call_charged within c).within) within (c :: fs)).tokensAt
        key last).1
      have most := (within.tokensAt key c.now).2
      have shorter : seconds (last - c.now) ≤ seconds (last - first) := by
        have rest := seconds_nonneg (Int.sub_nonneg_of_le starts.1)
        rw [seconds_parts first c.now last]
        linarith
      have gain := mul_le_mul_of_nonneg_right shorter within.rate
      rw [(run_same rate burst es).1, (run_same rate burst es).2] at *
      linarith
  · intro rate burst t now es fs clocked le later key is_full
    exact (alike_drop (run_within rate burst es) ((run_past rate burst clocked).mono le) is_full).answers later
  · intro r reached key netPrefix now
    exact ⟨Rates.sendAllowed_both reached.ok, fun n => Rates.frameAllowed_both reached.ok n⟩
  · rintro perKey perPrefix netPrefix key es l rfl c n now
    exact WaitLists.redeliverAllowed_both (WaitLists.run_ok perKey perPrefix netPrefix key es).2 c n now

/-- Of three tokens at once the third is refused; another is there a second later. -/
def fourTakes : List BucketSet.Call :=
  [⟨"a", 0, .take 1⟩, ⟨"a", 0, .take 1⟩, ⟨"a", 0, .take 1⟩, ⟨"a", second, .take 1⟩]

open BucketSet in
theorem fourTakes_bounded : net "a" (run BucketSet.step (newBucketSet 1 2) []) fourTakes = 3 ∧
    net "a" (run BucketSet.step (newBucketSet 1 2) []) fourTakes ≤ 2 + 1 * seconds (second - 0) ∧
    ((run BucketSet.step (newBucketSet 1 2) fourTakes).drop "a").answers [⟨"a", minute, .take 2⟩] =
      (run BucketSet.step (newBucketSet 1 2) fourTakes).answers [⟨"a", minute, .take 2⟩] := by
  have bound := buckets_bound_rates.1 1 2 0 [] fourTakes (by decide) "a" 0 second (by decide) (by decide)
  have full : (run BucketSet.step (newBucketSet 1 2) fourTakes).full "a" minute :=
    ⟨⟨0, second⟩, by decide +kernel, by decide +kernel⟩
  refine ⟨by decide +kernel, by simpa using bound, ?_⟩
  exact buckets_bound_rates.2.1 1 2 0 minute fourTakes [⟨"a", minute, .take 2⟩] (by decide) (by decide)
    (by decide) "a" full

end Agentnet.Relay
