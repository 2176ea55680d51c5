import Agentnet.Request.HashAgreement
import Agentnet.Request.RowHistory

/-! A resent request is a duplicate to its receiver: it is decoded to the request that was sent, so it has the hash of
the row that was stored for it. -/

namespace Agentnet.Request

open Lib Canonical

/-! ## Valid bodies -/

/-- The request as it is on the wire. -/
def Body.object (b : Body) : Object where
  v := 1
  id := b.id
  from' := b.from'
  to' := b.to'
  team := b.team
  type := b.type.text
  title := b.title
  brief := b.brief
  urgency := b.urgency.text
  urgencyDeclared := (b.urgencyDeclared.map Urgency.text).getD ""
  urgencyReason := b.urgencyReason
  artifacts := b.artifacts
  requestedGrant := b.requestedGrant
  deadline := (b.deadline.map parseWireTime).getD noTime
  created := parseWireTime b.created
  context := b.context
  run := b.run
  debate := b.debate.map fun d => ⟨d.commitment, d.rounds, d.turnTimeoutS⟩

/-- What an object tells apart: no deadline is the zero time, no list of files is empty. -/
structure Body.Plain (b : Body) : Prop where
  deadline : b.deadline ≠ some zeroTime
  context : b.context ≠ some []

theorem require_congr {p q : Prop} [Decidable p] [Decidable q] (h : p ↔ q) (e : FieldError) :
    require p e = require q e := by
  rw [require, require]
  exact if_congr h rfl rfl

theorem require_pos {p : Prop} [Decidable p] (h : p) (e : FieldError) : require p e = .ok () := if_pos h

theorem RequestType.text_iff (t : RequestType) :
    (t.text = "debate" ↔ t = .debate) ∧ (t.text = "question" ↔ t = .question) := by
  cases t <;> decide

theorem Urgency.text_iff (u : Urgency) :
    (u.text = "high" ↔ u = .high) ∧ (u.text = "blocking" ↔ u = .blocking) ∧
    (u.text = "normal" ↔ u = .normal) ∧ u.text ≠ "" := by
  cases u <;> decide

theorem parseWireTime_inj {w w' : WireTime} : parseWireTime w = parseWireTime w' ↔ w = w' := by
  constructor
  · intro same
    exact Int.eq_of_mul_eq_mul_right (by decide : (1000000000 : Int) ≠ 0) same
  · exact congrArg parseWireTime

theorem validateDebate_object (b : Body) : b.object.validateDebate = validateDebate b := by
  rw [Object.validateDebate, validateDebate]
  by_cases debate : b.type = .debate
  · have text : b.object.type = "debate" := b.type.text_iff.1.mpr debate
    rw [if_neg (not_not.mpr text), debate]
    cases some_ : b.debate with
    | none => simp [Body.object, some_]
    | some d =>
      have rounds : (1 ≤ (d.rounds : Int) ∧ (d.rounds : Int) ≤ 5) ↔ 1 ≤ d.rounds ∧ d.rounds ≤ 5 := by omega
      have timeout : (300 ≤ (d.turnTimeoutS : Int) ∧ (d.turnTimeoutS : Int) ≤ 86400) ↔
          300 ≤ d.turnTimeoutS ∧ d.turnTimeoutS ≤ 86400 := by omega
      simp only [Body.object, some_, Option.map_some, validateDebateMember]
      rw [require_congr rounds, require_congr timeout]
  · have text : b.object.type ≠ "debate" := fun e => debate (b.type.text_iff.1.mp e)
    rw [if_pos text]
    cases some_ : b.debate with
    | none => cases type : b.type <;> simp_all [Body.object, require]
    | some d => cases type : b.type <;> simp_all [Body.object, require]

theorem validateUrgency_object (b : Body) : b.object.validateUrgency = validateUrgency b := by
  obtain ⟨high, blocking, normal, -⟩ := b.urgency.text_iff
  have known : b.urgency.text ∈ ["low", "normal", "high", "blocking"] := by
    cases b.urgency <;> decide
  rw [Object.validateUrgency, validateUrgency, require_pos (show b.object.urgency ∈ _ from known)]
  cases declared : b.urgencyDeclared with
  | none => simp [Body.object, declared, whenPresent, checkDeclared, high, blocking]
  | some d =>
    have filled := d.text_iff.2.2.2
    simp [Body.object, declared, whenPresent, checkDeclared, high, blocking, normal, d.text_iff.1,
      d.text_iff.2.1, filled]

theorem validateContext_object (b : Body) : b.object.validateContext = validateContext b.type := by
  funext files
  have asked : b.object.type = "question" ∨ b.object.type = "debate" ↔ b.type = .question ∨ b.type = .debate :=
    or_congr b.type.text_iff.2 b.type.text_iff.1
  rw [Object.validateContext, validateContext, require_congr asked]

variable {b : Body} {s : String}

theorem validate_object (plain : b.Plain) : b.object.validate = validate b := by
  have type_ : b.object.type ∈ ["review", "task", "question", "debate"] := by
    change b.type.text ∈ _
    cases b.type <;> decide
  have created : b.object.created ≠ noTime ↔ b.created ≠ zeroTime := not_congr parseWireTime_inj
  have deadline : require (b.object.deadline = noTime ∨
      b.object.created < b.object.deadline) ⟨"deadline", "must be later than created"⟩ =
      whenSome (fun deadline =>
        require (b.created < deadline) ⟨"deadline", "must be later than created"⟩) b.deadline := by
    cases some_ : b.deadline with
    | none => exact require_eq_ok.mpr (.inl (by simp [Body.object, some_]))
    | some w =>
      have there : b.object.deadline = parseWireTime w := by simp [Body.object, some_]
      have given : parseWireTime w ≠ noTime :=
        fun e => plain.deadline (some_.trans (congrArg some (parseWireTime_inj.mp e)))
      have later : parseWireTime b.created < parseWireTime w ↔ b.created < w := by
        constructor
        · intro less
          exact Int.lt_of_mul_lt_mul_right less (by decide)
        · intro less
          exact Int.mul_lt_mul_of_pos_right less (by decide)
      rw [there, whenSome]
      exact require_congr ((or_iff_right given).trans later) _
  have version : b.object.v = 1 := rfl
  rw [Object.validate, validate, require_pos version, require_pos type_, validateDebate_object,
    validateUrgency_object, validateContext_object, require_congr created, deadline]
  rfl

theorem members_object (plain : b.Plain) : b.object.members 1 = requestValue b := by
  have declared : textMember "urgency_declared" b.object.urgencyDeclared =
      optMember "urgency_declared" (fun u : Urgency => .str u.text) b.urgencyDeclared := by
    cases some_ : b.urgencyDeclared with
    | none => simp [Body.object, some_, textMember, optMember]
    | some u => simp [Body.object, some_, textMember, optMember, u.text_iff.2.2.2]
  have whole : ∀ w, Object.timeValue (parseWireTime w) = .str (wireTimeText w) := by
    intro w
    rw [Object.timeValue, wireTime, parseWireTime, Int.mul_ediv_cancel _ (by decide)]
  have deadline : optMember "deadline" Object.timeValue
      (if b.object.deadline = noTime then none else some b.object.deadline) =
      optMember "deadline" (fun t => .str (wireTimeText t)) b.deadline := by
    cases some_ : b.deadline with
    | none => simp [Body.object, some_, optMember]
    | some w =>
      have there : b.object.deadline = parseWireTime w := by simp [Body.object, some_]
      have given : parseWireTime w ≠ noTime :=
        fun e => plain.deadline (some_.trans (congrArg some (parseWireTime_inj.mp e)))
      rw [there, if_neg given, optMember, optMember, whole]
  have context : (b.object.context.filter fun files => !files.isEmpty) = b.context := by
    change (b.context.filter fun files => !files.isEmpty) = b.context
    cases some_ : b.context with
    | none => rfl
    | some files =>
      rw [Option.filter_some, if_pos]
      simpa using fun e => plain.context (some_.trans (congrArg some e))
  have debate : optMember "debate" Object.debateValue b.object.debate = optMember "debate" debateValue b.debate := by
    cases some_ : b.debate with
    | none => simp [Body.object, some_, optMember]
    | some d => simp [Body.object, some_, optMember, Object.debateValue, debateValue]
  have created : Object.timeValue b.object.created = .str (wireTimeText b.created) := whole b.created
  rw [Object.members, requestValue, declared, deadline, context, debate, created]
  simp only [List.append_assoc]
  rfl

theorem canonical_object (plain : b.Plain) : b.object.canonical = canonical b := by
  rw [Object.canonical, canonical, members_object plain]

theorem RequestType.exists_text (h : s ∈ ["review", "task", "question", "debate"]) : ∃ t :
    RequestType, t.text = s := by
  simp only [List.mem_cons, List.not_mem_nil, or_false] at h
  obtain rfl | rfl | rfl | rfl := h
  · exact ⟨.review, rfl⟩
  · exact ⟨.task, rfl⟩
  · exact ⟨.question, rfl⟩
  · exact ⟨.debate, rfl⟩

theorem Urgency.exists_text (h : s ∈ ["low", "normal", "high", "blocking"]) : ∃ u : Urgency, u.text = s := by
  simp only [List.mem_cons, List.not_mem_nil, or_false] at h
  obtain rfl | rfl | rfl | rfl := h
  · exact ⟨.low, rfl⟩
  · exact ⟨.normal, rfl⟩
  · exact ⟨.high, rfl⟩
  · exact ⟨.blocking, rfl⟩

theorem exists_body {r : Object} (valid : r.validate = .ok ()) (timed : r.Timed) : ∃ b :
    Body, b.object = r ∧ b.Plain := by
  have sound := Object.sound_of_validate valid
  simp only [Object.validate, bind_eq_ok, require_eq_ok] at valid
  obtain ⟨_, -, _, -, _, -, _, -, _, -, _, type_, _, -, _, -, _, -, _, urgency, -⟩ := valid
  simp only [Object.validateUrgency, bind_eq_ok, require_eq_ok] at urgency
  obtain ⟨_, urgency, _, declared, -⟩ := urgency
  obtain ⟨t, type_⟩ := RequestType.exists_text type_
  obtain ⟨u, urgency⟩ := Urgency.exists_text urgency
  obtain ⟨d, declared⟩ : ∃ d : Option Urgency, (d.map Urgency.text).getD "" = r.urgencyDeclared := by
    rw [whenPresent] at declared
    split at declared
    · next absent => exact ⟨none, absent.symm⟩
    · simp only [bind_eq_ok, require_eq_ok] at declared
      obtain ⟨_, listed, -⟩ := declared
      obtain ⟨d, text⟩ := Urgency.exists_text
        (List.mem_of_mem_drop (i := 2) listed : r.urgencyDeclared ∈ ["low", "normal", "high", "blocking"])
      exact ⟨some d, text⟩
  obtain ⟨deadline, ending, given⟩ : ∃ w : Option WireTime, (w.map parseWireTime).getD noTime = r.deadline ∧
    w ≠ some zeroTime := by
    by_cases absent : r.deadline = noTime
    · exact ⟨none, absent.symm, fun e => (by cases e)⟩
    · obtain ⟨w, -, whole⟩ := timed.deadline absent
      exact ⟨some w, whole.symm, fun e => absent (whole.trans (congrArg parseWireTime (Option.some.inj e)))⟩
  obtain ⟨created, -, whole⟩ := timed.created
  obtain ⟨debate, turns⟩ : ∃ o : Option DebateMember,
    (o.map fun d => (⟨d.commitment, d.rounds, d.turnTimeoutS⟩ : DebateSpec)) = r.debate := by
    cases some_ : r.debate with
    | none => exact ⟨none, rfl⟩
    | some d =>
      obtain ⟨rounds, timeout⟩ := Object.validateDebate_ok sound.debate some_
      refine ⟨some ⟨d.commitment, d.rounds.toNat, d.turnTimeoutS.toNat⟩, ?_⟩
      rw [Option.map_some, Int.toNat_of_nonneg (by omega), Int.toNat_of_nonneg (by omega)]
  let b : Body :=
    { id := r.id, from' := r.from', to' := r.to', team := r.team, type := t, title := r.title, brief := r.brief
      urgency := u, urgencyDeclared := d, urgencyReason := r.urgencyReason, artifacts := r.artifacts
      requestedGrant := r.requestedGrant
      deadline, created, context := r.context, run := r.run, debate }
  refine ⟨b, ?_, given, fun empty => sound.context [] empty rfl⟩
  rw [Body.object, type_, urgency, declared, ending, turns, ← whole, ← sound.version]

/-! ## Rows of the receiver -/

section Receiver

variable {δ : Type} {w : Wiring δ} {k : Key} {c : Cell δ} {b : Body}

variable {hash : String} {row : Row} {created : WireTime}

/-- The stored row has the hash of the body it came with. -/
theorem Stores.bodyHash {i : Intake} {now : Time} {outcome : ReceiveOutcome}
    (stores : Stores c b hash i now row outcome) : row.bodyHash = hash := by
  cases stores with
  | cancelled t buried state origin => exact congrArg Origin.bodyHash origin
  | declined code unburied young state origin => exact congrArg Origin.bodyHash origin
  | pending accepted unburied young room moves => exact congrArg Origin.bodyHash moves.origin

/-- The event brings no request but `b`. -/
def Brings (b : Body) (e : WorkerEvent) : Prop :=
  ∀ m i tombstones now r, e = .mail m i tombstones now → m.body = .request r → r = b

/-- A row has the hash of a received `b`. -/
def HashOf (w : Wiring δ) (k : Key) (b : Body) (c : Cell δ) : Prop :=
  ∀ row, c.request = some row → ∃ created, checkRequest w k created b = .ok row.bodyHash

/-- The stored hash stays that of the body, over one event. -/
theorem HashOf.step (hooks : w.debates.KeepRows) (h : HashOf w k b c) {e : WorkerEvent} (brings : Brings b e) :
    HashOf w k b (workerStep w k c e) := by
  intro row known
  cases before : c.request with
  | none =>
    obtain ⟨m, r, i, tombstones, now, hash, outcome, event, carried, -, -, checked, stores⟩ :=
      storedBy_of_new hooks before known
    rw [stores.bodyHash, ← brings m i tombstones now r event carried]
    exact ⟨m.created, checked⟩
  | some first =>
    obtain ⟨later, known', moves⟩ := (workerStep_rowStep hooks e).later before
    cases known.symm.trans known'
    rw [show row.bodyHash = first.bodyHash from congrArg Origin.bodyHash moves.origin]
    exact h first before

/-- And over a run. -/
theorem HashOf.run (hooks : w.debates.KeepRows) (h : HashOf w k b c) {es : List WorkerEvent}
    (brings : ∀ e ∈ es, Brings b e) :
    HashOf w k b (Lib.run (workerStep w k) c es) := by
  induction es generalizing c with
  | nil => exact h
  | cons e es ih =>
    rw [run_cons]
    exact ih (h.step hooks (brings e List.mem_cons_self)) fun e mem => brings e (List.mem_cons_of_mem _ mem)

theorem checkRequest_eq_ok : checkRequest w k created b = .ok hash ↔
    validate b = .ok () ∧ b.from' = k.peer ∧ b.to' = w.self ∧ b.created ≤ created ∧ ∃ canon, canonical b = .ok canon ∧
      checkSizeFor b canon = .ok () ∧ w.crypto.sha256 canon = hash := by
  have canonOr_ok : ∀ {x : Except String String} {f : String → Error} {canon : String},
      WorkSession.canonOr f x = .ok canon ↔ x = .ok canon := by
    intro x f canon
    cases x <;> simp [WorkSession.canonOr]
  have size_ok : ∀ {x : Except Error Unit}, requestSizeOrBadBody x = .ok () ↔ x = .ok () := by
    intro x
    cases x <;> simp [requestSizeOrBadBody]
  simp only [checkRequest, bind_eq_ok, require_eq_ok, orBadBody_eq_ok, canonOr_ok, size_ok]
  constructor
  · rintro ⟨_, valid, _, sender, _, recipient, _, sent, canon, written, _, small, e⟩
    exact ⟨valid, sender, recipient, sent, canon, written, small, Except.ok.inj e⟩
  · rintro ⟨valid, sender, recipient, sent, canon, written, small, rfl⟩
    exact ⟨(), valid, (), sender, (), recipient, (), sent, canon, written, (), small, rfl⟩

theorem HashOf.duplicate (h : HashOf w k b c) (known : c.request = some row)
    (sent : b.created ≤ created) (i : Intake) (now : Time) : apply w k c created b i now = .ok (c, .duplicate) := by
  obtain ⟨created', checked⟩ := h row known
  obtain ⟨valid, sender, recipient, -, canon⟩ := checkRequest_eq_ok.mp checked
  rw [apply, checkRequest_eq_ok.mpr ⟨valid, sender, recipient, sent, canon⟩, ok_bind, known]
  exact congrArg (fun outcome => Except.ok (c, outcome)) (if_pos rfl)

end Receiver

/-! ## Agreement -/

/-- A text of a mail body: its members in any order, in any style. -/
def TextOf (body : JsonObject) (text : String) : Prop :=
  ∃ st v, Reordered (.obj body) v ∧ text = String.ofList (write st 0 v)

/-- A valid request is decoded to itself, sent or resent, exactly if its times can be written; and so to its canonical
form. A receiver that got nothing else under its id takes it for the duplicate that it is. -/
theorem body_hash_agrees {δ : Type} (w : Wiring δ) (hooks : w.debates.KeepRows) (k : Key) (t : δ) (r : Object)
    (valid : r.validate = .ok ()) : (∀ body, requestOf body = .ok r → r.Timed) ∧ (r.Timed →
    ∃ canon obj, r.canonical = .ok canon ∧ parseStoredBodyObj canon = .ok obj ∧ decode obj = .ok r ∧
      (∀ text, TextOf r.wireBody text ∨ TextOf [("request", .obj obj)] text →
        ∃ body, parseStrict text = .ok (.obj body) ∧ requestOf body = .ok r) ∧
      (∀ r', r'.validate = .ok () → r'.Timed → r'.canonical = .ok canon → r' = r) ∧
      (∃ b : Body, b.object = r ∧ b.Plain) ∧
      ∀ b : Body, b.object = r → b.Plain → validate b = .ok () ∧ canonical b = .ok canon ∧
        ∀ es row, (∀ e ∈ es, Brings b e) → (run (workerStep w k) { debate := t } es).request = some row →
          row.bodyHash = w.crypto.sha256 canon ∧ ∀ created i now, b.created ≤ created →
            apply w k (run (workerStep w k) { debate := t } es) created b i now =
              .ok (run (workerStep w k) { debate := t } es, .duplicate)) := by
  refine ⟨fun body => Object.timed_of_requestOf, fun timed => ?_⟩
  have sound := Object.sound_of_validate valid
  obtain ⟨obj, parsed, same⟩ := Object.parseStoredBodyObj_canonical sound
  refine ⟨_, obj, Object.canonical_eq sound, parsed, Object.decode_same valid timed same, ?_, ?_,
    exists_body valid timed, ?_⟩
  · rintro text (⟨st, v, sent, rfl⟩ | ⟨st, v, sent, rfl⟩)
    · refine Object.requestOf_mail valid timed ⟨r.members 1, .refl _, List.forall₂_same.mpr fun m _ => .refl m⟩ st ?_
      rw [Object.wireBody, sound.version] at sent
      exact sent
    · exact Object.requestOf_mail valid timed same st sent
  · intro r' other timed' equal
    exact Object.eq_of_canonical other timed' valid timed (equal.trans (Object.canonical_eq sound).symm)
  · intro b object plain
    have written : canonical b = .ok (canonicalText (.obj (r.members 1))) := by
      rw [← canonical_object plain, object, Object.canonical_eq sound]
    have valid' : validate b = .ok () := by
      rw [← validate_object plain, object, valid]
    refine ⟨valid', written, fun es row brings known => ?_⟩
    have start : HashOf w k b { debate := t } := fun row known => (by cases known)
    have hash := start.run hooks brings
    refine ⟨?_, fun created i now sent => hash.duplicate known sent i now⟩
    obtain ⟨created, checked⟩ := hash row known
    obtain ⟨-, -, -, -, canon, canonical_, -, e⟩ := checkRequest_eq_ok.mp checked
    have one : canon = canonicalText (.obj (r.members 1)) := Except.ok.inj (canonical_.symm.trans written)
    rw [← e, one]

/-- A request that is due by a time of the year 10000, as of `--deadline 9999-12-31T23:59:59-10:00`. -/
def lateRequest : Object where
  v := 1
  id := "r-00112233445566778899aabbccddeeff"
  from' := "AAAAAAAAAAAAAAAAAAAAAAAAAAAAAAAAAAAAAAAAAAA"
  to' := "AQAAAAAAAAAAAAAAAAAAAAAAAAAAAAAAAAAAAAAAAAA"
  team := "t-00112233445566778899aabbccddeeff"
  type := "task"
  title := "late"
  brief := "by then"
  urgency := "normal"
  deadline := parseWireTime 253402336799
  created := parseWireTime 1767225600

/-- It is valid and is sent, but no receiver reads it. -/
theorem lateRequest_unread :
    lateRequest.validate = .ok () ∧ ∃ body, parseStrict (marshal (.obj lateRequest.wireBody)) = .ok (.obj body) ∧
    requestOf body = .error (.badBody "request: deadline: must be RFC 3339 UTC with Z and whole seconds") := by
  have valid : lateRequest.validate = .ok () := by decide +kernel
  have generic := Object.generic_members (Object.sound_of_validate valid)
  have whole : Generic (.obj lateRequest.wireBody) := ⟨List.nodup_singleton _, generic, trivial⟩
  exact ⟨valid, _, parseStrict_marshal whole, by decide +kernel⟩

def dueBody : Body where
  id := lateRequest.id
  from' := lateRequest.from'
  to' := lateRequest.to'
  team := lateRequest.team
  type := .task
  title := lateRequest.title
  brief := lateRequest.brief
  urgency := .normal
  deadline := some 253402300799
  created := 1767225600

def dueWiring : Wiring Unit := ⟨⟨id⟩, dueBody.to', .undebated⟩

def dueMail : WorkerEvent := .mail ⟨1767225600, .request dueBody⟩ {} 0 (parseWireTime 1767225602)

theorem dueBody_agrees : ∃ canon obj, dueBody.object.canonical = .ok canon ∧ parseStoredBodyObj canon = .ok obj ∧
    decode obj = .ok dueBody.object ∧ ∃ c row, c.request = some row ∧
      apply dueWiring ⟨dueBody.from',
        dueBody.id⟩ c 1767225700 dueBody {} (parseWireTime 1767225701) = .ok (c, .duplicate) := by
  have valid : dueBody.object.validate = .ok () := by decide +kernel
  have timed : dueBody.object.Timed := ⟨⟨1767225600, by decide, rfl⟩, fun _ => ⟨253402300799, by decide, rfl⟩⟩
  have plain : dueBody.Plain := ⟨by decide, by decide⟩
  have stored : (run (workerStep dueWiring ⟨dueBody.from',
      dueBody.id⟩) { debate := () } [dueMail]).request.isSome = true := by
    decide +kernel
  obtain ⟨row, known⟩ := Option.isSome_iff_exists.mp stored
  obtain ⟨canon, obj, written, parsed, decoded, -, -, -, receives⟩ :=
    body_hash_agrees dueWiring DebateHooks.undebated_keepRows ⟨dueBody.from',
      dueBody.id⟩ () dueBody.object valid |>.2 timed
  obtain ⟨-, -, duplicates⟩ := receives dueBody rfl plain
  have brings : ∀ e ∈ [dueMail], Brings dueBody e := by
    intro e mem m i tombstones now r event carried
    rw [List.mem_singleton.mp mem, dueMail] at event
    cases event
    cases carried
    rfl
  exact ⟨canon, obj, written, parsed, decoded, _, row, known,
    (duplicates [dueMail] row brings known).2 _ _ _ (by decide)⟩

end Agentnet.Request
