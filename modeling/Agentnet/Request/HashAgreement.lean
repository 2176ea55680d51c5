import Mathlib.Data.List.Find
import Agentnet.Request.Wire

/-! Both sides of a request have the same hash of its body: what either encoder writes is decoded to the request it
was written from, in whatever order and style. -/

namespace Agentnet.Request

open Lib Canonical

/-! ## Members -/

section Members

variable {body : JsonObject} {key s : String}

variable {α : Type} {o : Option Json} {field : String}

theorem member_optMember (name : String) (value : α → Json) (o : Option α) (key : String) :
    Json.member (optMember name value o) key = if key = name then o.map value else none := by
  cases o with
  | none => simp [optMember, Json.member]
  | some a => simp [optMember, member_singleton]

theorem str_of_reordered {v : Json} (h : Reordered (.str s) v) : v = .str s := h.like

/-- A text is not reordered. -/
theorem str_of_rel (h : Option.Rel Reordered (some (.str s)) o) : o = some (.str s) := by
  cases h with
  | some alike => rw [alike.like]

theorem text_of_rel (h : Option.Rel Reordered (if s = "" then none else some (.str s)) o) :
    o = if s = "" then none else some (.str s) := by
  by_cases empty : s = ""
  · rw [if_pos empty] at h ⊢
    cases h
    rfl
  · rw [if_neg empty] at h ⊢
    exact str_of_rel h

theorem decodeString_required (h : Json.member body key = some (.str s)) : decodeString body key false = .ok s := by
  rw [decodeString, h]
  simp

theorem decodeString_optional (h : Json.member body key = if s = "" then none else some (.str s)) :
    decodeString body key true = .ok s := by
  rw [decodeString, h]
  by_cases empty : s = ""
  · simp [empty]
  · simp [empty]

theorem decodeInt_ok {i : Int} (h : Json.member body key = some (.num (.int i)))
    (range : -9223372036854775808 ≤ i ∧ i ≤ 9223372036854775807) : decodeInt body key = .ok i := by
  rw [decodeInt, h]
  simp [Number.int64?, range]

theorem onlyMembers_ok {allowed : List String} {refusal : String → FieldError}
    (h : ∀ name ∈ body.map Prod.fst, name ∈ allowed) :
    onlyMembers allowed refusal body = .ok () := by
  have none_ : body.find? (fun m => decide (m.1 ∉ allowed)) = none :=
    List.find?_eq_none.mpr fun m mem => by simpa using h m.1 (List.mem_map.mpr ⟨m, mem, rfl⟩)
  rw [onlyMembers, none_]

theorem allMembers_ok {required : List String} (h : ∀ name ∈ required, (Json.member body name).isSome) :
    allMembers body required = .ok () := by
  induction required with
  | nil => rfl
  | cons name required ih =>
    have first : (Json.member body name).isSome := h name List.mem_cons_self
    rw [allMembers, ih fun name mem => h name (List.mem_cons_of_mem _ mem), require, if_pos first]
    rfl

theorem nestedString_ok (h : Json.member body key = some (.str s)) : nestedString field body key = .ok s := by
  rw [nestedString, h]

theorem nestedInt_ok {i : Int} (h : Json.member body key = some (.num (.int i)))
    (range : -9223372036854775808 ≤ i ∧ i ≤ 9223372036854775807) : nestedInt field body key = .ok i := by
  rw [nestedInt, decodeInt_ok h range]

theorem textMember_names (name s : String) : ((textMember name s).map Prod.fst).Sublist [name] := by
  rw [textMember]
  split
  · exact List.nil_sublist _
  · exact .refl _

theorem optMember_names (name : String) (value : α → Json) (o : Option α) :
    ((optMember name value o).map Prod.fst).Sublist [name] := by
  cases o with
  | none => exact List.nil_sublist _
  | some a => exact .refl _

end Members

/-! ## Artifacts -/

def artifactMembers (a : Artifact) : JsonObject :=
  textMember "url" a.url ++
    (textMember "branch" a.branch ++ (textMember "commit" a.commit ++ textMember "path" a.path))

theorem artifactValue_eq (a : Artifact) : artifactValue a = .obj (artifactMembers a) := by
  rw [artifactValue, artifactMembers, List.append_assoc, List.append_assoc]

def artifactNames : List String := ["url", "branch", "commit", "path"]

theorem artifactMembers_names (a : Artifact) : ((artifactMembers a).map Prod.fst).Sublist artifactNames := by
  rw [artifactMembers, List.map_append, List.map_append, List.map_append]
  exact (textMember_names _ _).append
    ((textMember_names _ _).append ((textMember_names _ _).append (textMember_names _ _)))

theorem artifactMembers_distinct (a : Artifact) : ((artifactMembers a).map Prod.fst).Nodup :=
  (artifactMembers_names a).nodup (by decide)

def textOr (members : JsonObject) (key before : String) : String :=
  match members.lookup key with
  | some (.str s) => s
  | _ => before

theorem textOr_cons (key name s before : String) (rest : JsonObject) :
    textOr ((name, .str s) :: rest) key before = if key = name then s else textOr rest key before := by
  rw [textOr, lookup_cons_if]
  by_cases same : key = name
  · rw [if_pos same, if_pos same]
  · rw [if_neg same, if_neg same, textOr]

variable {key s : String} {members : JsonObject} {items : List Json} {list : List Artifact} {v : Json}
  {files : List ContextFile}

theorem textOr_absent {before : String} {rest : JsonObject} (absent : key ∉ rest.map Prod.fst) :
    textOr rest key before = before := by
  rw [textOr, lookup_none_iff.mpr absent]

theorem decodeArtifact_eq (field : String) (a : Artifact) (distinct : (members.map Prod.fst).Nodup)
    (texts : ∀ m ∈ members, m.1 ∈ artifactNames ∧ ∃ s, s ≠ "" ∧ m.2 = .str s) : decodeArtifact field a members = .ok
      ⟨textOr members "url" a.url, textOr members "branch" a.branch, textOr members "commit" a.commit,
        textOr members "path" a.path⟩ := by
  induction members generalizing a with
  | nil => rfl
  | cons m rest ih =>
    obtain ⟨name, value⟩ := m
    obtain ⟨known, s, filled, rfl⟩ : name ∈ artifactNames ∧ ∃ s, s ≠ "" ∧ value = .str s := texts _ List.mem_cons_self
    have apart := List.nodup_cons.mp distinct
    have rest_ := fun a => ih a apart.2 fun m mem => texts m (List.mem_cons_of_mem _ mem)
    simp only [textOr_cons]
    simp only [artifactNames, List.mem_cons, List.not_mem_nil, or_false] at known
    obtain rfl | rfl | rfl | rfl := known <;>
      simp [decodeArtifact, setArtifactField, filled, rest_, textOr_absent apart.1]

theorem text_of_mem_textMember {name : String} {m : String × Json} (h : m ∈ textMember name s) :
    m.1 = name ∧ ∃ s, s ≠ "" ∧ m.2 = .str s := by
  by_cases empty : s = ""
  · simp [textMember, empty] at h
  · simp only [textMember, empty, if_false, List.mem_singleton] at h
    rw [h]
    exact ⟨rfl, s, empty, rfl⟩

theorem artifactMembers_texts (a : Artifact) :
    ∀ m ∈ artifactMembers a, m.1 ∈ artifactNames ∧ ∃ s, s ≠ "" ∧ m.2 = .str s := by
  intro m mem
  simp only [artifactMembers, List.mem_append] at mem
  obtain mem | mem | mem | mem := mem <;>
  · obtain ⟨name, text⟩ := text_of_mem_textMember mem
    exact ⟨name ▸ by decide, text⟩

theorem textOr_eq (h : Json.member members key = if s = "" then none else some (.str s)) :
    textOr members key "" = s := by
  rw [Json.member] at h
  rw [textOr, h]
  by_cases empty : s = ""
  · rw [if_pos empty, empty]
  · rw [if_neg empty]

theorem decodeArtifact_same (field : String) (a : Artifact) (same : SameMembers (artifactMembers a) members) :
    decodeArtifact field {} members = .ok a := by
  have texts := artifactMembers_texts a
  have distinct := artifactMembers_distinct a
  have perm := same.perm_of_texts fun m mem => by
    obtain ⟨-, s, -, text⟩ := texts m mem
    exact ⟨s, text⟩
  have at_ : ∀ key, textOr members key "" = textOr (artifactMembers a) key "" := fun key => by
    rw [textOr, textOr, lookup_perm distinct perm key]
  rw [decodeArtifact_eq field {} ((perm.map Prod.fst).nodup_iff.mp distinct) fun m mem =>
    texts m (perm.mem_iff.mpr mem)]
  simp only [at_]
  have url : textOr (artifactMembers a) "url" "" = a.url :=
    textOr_eq (by simp [artifactMembers, member_append, member_textMember])
  have branch : textOr (artifactMembers a) "branch" "" = a.branch :=
    textOr_eq (by simp [artifactMembers, member_append, member_textMember])
  have commit : textOr (artifactMembers a) "commit" "" = a.commit :=
    textOr_eq (by simp [artifactMembers, member_append, member_textMember])
  have path : textOr (artifactMembers a) "path" "" = a.path :=
    textOr_eq (by simp [artifactMembers, member_append, member_textMember])
  rw [url, branch, commit, path]

theorem decodeArtifactList_same (base : String)
    (h : List.Forall₂ Reordered (list.map artifactValue) items) (i : Nat) :
    decodeArtifactList base i items = .ok list := by
  induction list generalizing items i with
  | nil =>
    cases h
    rfl
  | cons a list ih =>
    cases h with
    | @cons _ item _ items first rest =>
      rw [artifactValue_eq] at first
      obtain ⟨members, rfl, same⟩ := first.like
      rw [decodeArtifactList, decodeArtifact_same _ a same, ok_bind, ih rest, ok_bind]
      rfl

theorem decodeArtifactsAt_same (base : String) (h : Reordered (.arr (list.map artifactValue)) v) :
    decodeArtifactsAt base v = .ok list := by
  obtain ⟨items, rfl, same⟩ := h.like
  exact decodeArtifactList_same base same 0

/-! ## Nested objects -/

section Same

variable {members obj : JsonObject} {names : List String} (same : SameMembers members obj)
  (sub : (members.map Prod.fst).Sublist names)
include same sub

theorem onlyMembers_same (refusal : String → FieldError) : onlyMembers names refusal obj = .ok () :=
  onlyMembers_ok fun _ mem => sub.subset (same.names.mem_iff.mpr mem)

theorem member_same (distinct : names.Nodup) (key : String) :
    Option.Rel Reordered (Json.member members key) (Json.member obj key) :=
  same.lookup_rel (sub.nodup distinct) key

end Same

theorem num_of_rel {n : Number} {o : Option Json} (h : Option.Rel Reordered (some (.num n)) o) :
    o = some (.num n) := by
  cases h with
  | some alike => rw [alike.like]

theorem decodeContextFile_same (field : String) (f : ContextFile) {obj : JsonObject}
    (same : SameMembers [("name", .str f.name), ("text", .str f.text)] obj) :
    decodeContextFile field obj = .ok f := by
  have names := List.Sublist.refl ["name", "text"]
  have at_ := member_same same names (by decide)
  rw [decodeContextFile, onlyMembers_same same names, ok_bind,
    nestedString_ok (str_of_rel (at_ "name")), ok_bind, nestedString_ok (str_of_rel (at_ "text")), ok_bind]
  rfl

theorem decodeContextFiles_same
    (h : List.Forall₂ Reordered (files.map contextValue) items) (i : Nat) :
    decodeContextFiles i items = .ok files := by
  induction files generalizing items i with
  | nil =>
    cases h
    rfl
  | cons f files ih =>
    cases h with
    | @cons _ item _ items first rest =>
      obtain ⟨obj, rfl, same⟩ := first.like
      rw [decodeContextFiles, decodeContextFile_same _ f same, ok_bind, ih rest, ok_bind]
      rfl

theorem decodeContext_same (h : Reordered (.arr (files.map contextValue)) v) : decodeContext v = .ok files := by
  obtain ⟨items, rfl, same⟩ := h.like
  exact decodeContextFiles_same same 0

theorem decodeRun_same {command : String} (h : Reordered (.obj [("command", .str command)]) v) :
    decodeRun v = .ok command := by
  obtain ⟨obj, rfl, same⟩ := h.like
  have names := List.Sublist.refl ["command"]
  have at_ := member_same same names (by decide)
  rw [decodeRun, onlyMembers_same same names, ok_bind, nestedString_ok (str_of_rel (at_ "command"))]

/-- A requested grant is read back. -/
theorem decodeGrant_same {g : RequestedGrant} (h : Reordered (grantValue g) v) : decodeGrant v = .ok g := by
  obtain ⟨obj, rfl, same⟩ := h.like
  have names : (([("action", Json.str g.action),
      ("resource", .str g.resource)] ++ textMember "note" g.note).map Prod.fst).Sublist
      ["action", "resource", "note"] := by
    rw [List.map_append]
    exact (List.Sublist.refl ["action", "resource"]).append (textMember_names "note" g.note)
  have at_ := member_same same names (by decide)
  have note : decodeNote obj = .ok g.note := by
    have text := at_ "note"
    have own : Json.member ([("action", Json.str g.action),
        ("resource", .str g.resource)] ++ textMember "note" g.note) "note" =
        if g.note = "" then none else some (.str g.note) := by
      rw [member_append, member_textMember]
      simp [Json.member, List.lookup_cons]
    rw [own] at text
    rw [decodeNote, text_of_rel text]
    by_cases empty : g.note = ""
    · simp [empty]
    · simp [empty]
  rw [decodeGrant, onlyMembers_same same names, ok_bind,
    nestedString_ok (str_of_rel (at_ "action")), ok_bind, nestedString_ok (str_of_rel (at_ "resource")),
    ok_bind, note, ok_bind]
  rfl

theorem decodeDebate_same {d : DebateSpec} (h : Reordered (Object.debateValue d) v)
    (rounds : 1 ≤ d.rounds ∧ d.rounds ≤ 5) (timeout : 300 ≤ d.turnTimeoutS ∧ d.turnTimeoutS ≤ 86400) :
    decodeDebate v = .ok d := by
  obtain ⟨obj, rfl, same⟩ := h.like
  have names := List.Sublist.refl ["commitment", "rounds", "turn_timeout_s"]
  have at_ := member_same same names (by decide)
  rw [decodeDebate, onlyMembers_same same names, ok_bind,
    nestedString_ok (str_of_rel (at_ "commitment")), ok_bind,
    nestedInt_ok (num_of_rel (at_ "rounds")) (by omega), ok_bind,
    nestedInt_ok (num_of_rel (at_ "turn_timeout_s")) (by omega), ok_bind]
  rfl

/-! ## The whole object -/

namespace Object

/-- A time that its text gives back: whole seconds, in a year of four digits. -/
def Written (t : Time) : Prop := ∃ w, InYears w ∧ t = parseWireTime w

structure Timed (r : Object) : Prop where
  created : Written r.created
  deadline : r.deadline ≠ noTime → Written r.deadline

variable {field : String} {α : Type} {r : Object} {value : α → Json}

theorem decodeTime_str {s : String} {w : WireTime} (h : parseTime s = some w) :
    decodeTime field (.str s) = .ok (parseWireTime w) := by
  unfold decodeTime
  dsimp only
  rw [h]

theorem written_of_decodeTime {t : Time} {v : Json} (h : decodeTime field v = .ok t) : Written t := by
  unfold decodeTime at h
  split at h
  · split at h
    · next w read => exact ⟨w, (parseTime_eq_some read).1, (Except.ok.inj h).symm⟩
    · cases h
  · cases h

/-- Whatever is decoded has times that can be written. -/
theorem timed_of_decode {body : JsonObject} (h : decode body = .ok r) : r.Timed := by
  simp only [decode, bind_eq_ok] at h
  -- the fifteen members and checks before the deadline
  iterate 15 obtain ⟨_, -, h⟩ := h
  obtain ⟨deadline, due, _, -, _, -, _, -, created, made, _, -, done⟩ := h
  obtain rfl := Except.ok.inj done
  refine ⟨written_of_decodeTime made, fun some_ => ?_⟩
  cases deadline with
  | none => exact absurd rfl some_
  | some t =>
    unfold decodeIfPresent at due
    split at due
    · cases due
    · obtain ⟨t, read, same⟩ := map_eq_ok.mp due
      exact Option.some.inj same ▸ written_of_decodeTime read

theorem timed_of_requestOf {body : JsonObject} (h : requestOf body = .ok r) : r.Timed := by
  unfold requestOf at h
  split at h
  · next raw _ =>
    split at h
    · cases h
    · exact timed_of_decode (orBadBody_eq_ok.mp h)
  · cases h

theorem decodeTime_written {t : Time} (h : Written t) {v : Json} (alike : Reordered (timeValue t) v) :
    decodeTime field v = .ok t := by
  obtain ⟨w, years, rfl⟩ := h
  have whole : wireTime (parseWireTime w) = w := by
    rw [wireTime, parseWireTime, Int.mul_ediv_cancel _ (by decide)]
  rw [timeValue, whole] at alike
  rw [str_of_reordered alike, decodeTime_str (parseTime_text years)]

/-- An optional member is read back when its value is. -/
theorem decodeIfPresent_rel {decode : Json → Except FieldError α} {o : Option α} {found : Option Json}
    (h : Option.Rel Reordered (o.map value) found) (read : ∀ a ∈ o, ∀ v, Reordered (value a) v → decode v = .ok a) :
    decodeIfPresent decode found = .ok o := by
  cases o with
  | none =>
    cases h
    rfl
  | some a =>
    cases h with
    | some alike =>
      rw [decodeIfPresent, read a rfl _ alike]
      rfl

theorem member_optional (v : Int) (r : Object) {key : String} (other : key ∉ requiredMembers) :
    Json.member (r.members v) key = (Json.member (textMember "urgency_declared" r.urgencyDeclared) key).or
      ((Json.member (textMember "urgency_reason" r.urgencyReason) key).or
      ((Json.member (optMember "requested_grant" grantValue r.requestedGrant) key).or
      ((Json.member (optMember "deadline" timeValue (if r.deadline = noTime then none else some r.deadline)) key).or
      ((Json.member (optMember "context" (fun files => .arr (files.map contextValue))
        (r.context.filter fun files => !files.isEmpty)) key).or
      ((Json.member (optMember "run" (fun command => .obj [("command", .str command)]) r.run) key).or
      (Json.member (optMember "debate" debateValue r.debate) key)))))) := by
  rw [members, member_append, member_append, member_append, member_append, member_append,
    member_append, member_append]
  have absent : Json.member [("v", .num (.int v)), ("id", .str r.id), ("from", .str r.from'), ("to", .str r.to'),
      ("team", .str r.team),
        ("type", .str r.type), ("title", .str r.title), ("brief", .str r.brief), ("urgency", .str r.urgency),
        ("artifacts", .arr (r.artifacts.map artifactValue)), ("created", timeValue r.created)] key = none :=
    lookup_none_iff.mpr other
  rw [absent, Option.none_or]

theorem members_names (v : Int) (r : Object) : ((r.members v).map Prod.fst).Sublist allowedMembers := by
  simp only [members, List.map_append]
  refine (List.Sublist.refl requiredMembers).append ((textMember_names _ _).append ((textMember_names _ _).append ?_))
  exact (optMember_names _ _ _).append ((optMember_names _ _ _).append ((optMember_names _ _ _).append
    ((optMember_names _ _ _).append (optMember_names _ _ _))))

theorem validateDebate_ok (h : r.validateDebate = .ok ()) {d : DebateSpec} (some_ : r.debate = some d) :
    (1 ≤ d.rounds ∧ d.rounds ≤ 5) ∧ 300 ≤ d.turnTimeoutS ∧ d.turnTimeoutS ≤ 86400 := by
  rw [validateDebate, some_] at h
  split at h
  · cases require_eq_ok.mp h
  · simp only [bind_eq_ok, require_eq_ok] at h
    obtain ⟨_, -, _, rounds, _, timeout, -⟩ := h
    exact ⟨rounds, timeout⟩

/-- What the proofs here use of a valid request. -/
structure Sound (r : Object) : Prop where
  version : r.v = 1
  debate : r.validateDebate = .ok ()
  context : ∀ files, r.context = some files → files ≠ []

theorem Sound.filled (sound : r.Sound) : (r.context.filter fun files => !files.isEmpty) = r.context := by
  cases context : r.context with
  | none => rfl
  | some files =>
    rw [Option.filter_some, if_pos]
    simpa using sound.context files context

/-- What `Validate` leaves for the proofs here. -/
theorem sound_of_validate (h : r.validate = .ok ()) : r.Sound := by
  simp only [validate, bind_eq_ok, require_eq_ok] at h
  obtain ⟨_, version, _, -, _, -, _, -, _, -, _, -, _, -, _, -, _, debate, _, -, _, -, _, -, _, -, _, context, -⟩ := h
  refine ⟨version, debate, fun files some_ empty => ?_⟩
  rw [some_, empty, whenSome, validateContext] at context
  simp only [bind_eq_ok, require_eq_ok] at context
  obtain ⟨_, -, _, ⟨low, -⟩, -⟩ := context
  cases low

/-- A request is read back from its members in any order. -/
theorem decode_same (valid : r.validate = .ok ()) (timed : r.Timed) {body : JsonObject}
    (same : SameMembers (r.members 1) body) : decode body = .ok r := by
  have sound := sound_of_validate valid
  have names := r.members_names 1
  have at_ := member_same same names (by decide)
  have text : ∀ {key s : String}, Json.member (r.members 1) key = some (.str s) →
      decodeString body key false = .ok s :=
    fun {key s} own => decodeString_required (str_of_rel (own ▸ at_ key))
  have there : ∀ key ∈ requiredMembers, (Json.member body key).isSome := by
    intro key mem
    have own : (Json.member (r.members 1) key).isSome := by
      simp only [requiredMembers, List.mem_cons, List.not_mem_nil, or_false] at mem
      obtain rfl | rfl | rfl | rfl | rfl | rfl | rfl | rfl | rfl | rfl | rfl := mem <;> rfl
    obtain ⟨v, own⟩ := Option.isSome_iff_exists.mp own
    have found := own ▸ at_ key
    generalize Json.member body key = o at found
    cases found
    rfl
  have version : decodeInt body "v" = .ok r.v := sound.version ▸ decodeInt_ok (num_of_rel (at_ "v")) (by decide)
  obtain ⟨declared, reason, grant, deadline, run, debate⟩ :
      Json.member (r.members 1) "urgency_declared" =
        (if r.urgencyDeclared = "" then none else some (.str r.urgencyDeclared)) ∧
      Json.member (r.members 1) "urgency_reason" =
        (if r.urgencyReason = "" then none else some (.str r.urgencyReason)) ∧
      Json.member (r.members 1) "requested_grant" = r.requestedGrant.map grantValue ∧
      Json.member (r.members 1) "deadline" = (if r.deadline = noTime then none else some r.deadline).map timeValue ∧
      Json.member (r.members 1) "run" = (r.run.map fun command => .obj [("command", .str command)]) ∧
      Json.member (r.members 1) "debate" = r.debate.map debateValue := by
    refine ⟨?_, ?_, ?_, ?_, ?_, ?_⟩
    all_goals
      rw [member_optional 1 r (by decide)]
      simp [member_textMember, member_optMember]
  have context : Json.member (r.members 1) "context" = r.context.map fun files => .arr (files.map contextValue) := by
    rw [member_optional 1 r (by decide), sound.filled]
    simp [member_textMember, member_optMember]
  have artifacts : decodeArtifactsAt "artifacts" ((Json.member body "artifacts").getD .null) = .ok r.artifacts := by
    have found : Option.Rel Reordered (some (.arr (r.artifacts.map artifactValue))) (Json.member body "artifacts") :=
      at_ "artifacts"
    generalize Json.member body "artifacts" = o at found
    cases found with
    | some alike => exact decodeArtifactsAt_same _ alike
  have created : decodeTime "created" ((Json.member body "created").getD .null) = .ok r.created := by
    have found : Option.Rel Reordered (some (timeValue r.created)) (Json.member body "created") := at_ "created"
    generalize Json.member body "created" = o at found
    cases found with
    | some alike => exact decodeTime_written timed.created alike
  have ending : (if r.deadline = noTime then none else some r.deadline).getD noTime = r.deadline := by
    split
    · next absent => exact absent.symm
    · rfl
  have inTime : ∀ t ∈ if r.deadline = noTime then none else some r.deadline, Written t := by
    intro t mem
    split at mem
    · cases mem
    · next there =>
      cases mem
      exact timed.deadline there
  rw [decode]
  simp only [bind_eq_ok]
  refine ⟨(), onlyMembers_same same names _, (), allMembers_ok there, r.v, version, r.id, text rfl, r.from',
    text rfl, r.to', text rfl, r.team, text rfl, r.type, text rfl, r.title, text rfl, r.brief, text rfl,
    r.urgency, text rfl, r.urgencyDeclared, decodeString_optional (text_of_rel (declared ▸ at_ "urgency_declared")),
    r.urgencyReason, decodeString_optional (text_of_rel (reason ▸ at_ "urgency_reason")), r.artifacts, artifacts,
    r.requestedGrant, decodeIfPresent_rel (grant ▸ at_ "requested_grant") fun g _ v => decodeGrant_same,
    _, decodeIfPresent_rel (deadline ▸ at_ "deadline") fun t mem v => decodeTime_written (inTime t mem),
    r.context, decodeIfPresent_rel (context ▸ at_ "context") fun files _ v => decodeContext_same,
    r.run, decodeIfPresent_rel (run ▸ at_ "run") fun command _ v => decodeRun_same,
    r.debate, decodeIfPresent_rel (debate ▸ at_ "debate") fun d mem v alike => ?_, r.created, created, ?_⟩
  · obtain ⟨rounds, timeout⟩ := validateDebate_ok sound.debate mem
    exact decodeDebate_same alike rounds timeout
  · rw [ending]
    exact ⟨(), valid, rfl⟩

/-! ## Texts -/

theorem generic_texts {members : JsonObject} (names : List String) (sub : (members.map Prod.fst).Sublist names)
    (distinct : names.Nodup) (texts : ∀ m ∈ members, ∃ s, m.2 = .str s) : Generic (.obj members) := by
  refine ⟨sub.nodup distinct, genericMembers_iff.mpr fun m mem => ?_⟩
  obtain ⟨s, text⟩ := texts m mem
  rw [text]
  trivial

theorem generic_artifact (a : Artifact) : Generic (artifactValue a) := by
  rw [artifactValue_eq]
  refine generic_texts artifactNames (artifactMembers_names a) (by decide) fun m mem => ?_
  obtain ⟨-, s, -, text⟩ := artifactMembers_texts a m mem
  exact ⟨s, text⟩

theorem generic_items (each : ∀ a, Generic (value a)) (list : List α) : Generic (.arr (list.map value)) := by
  refine genericItems_iff.mpr fun item mem => ?_
  obtain ⟨a, -, rfl⟩ := List.mem_map.mp mem
  exact each a

theorem generic_grant (g : RequestedGrant) : Generic (grantValue g) := by
  refine generic_texts ["action", "resource", "note"] ?_ (by decide) fun m mem => ?_
  · rw [List.map_append]
    exact (List.Sublist.refl ["action", "resource"]).append (textMember_names "note" g.note)
  · obtain mem | mem := List.mem_append.mp mem
    · simp only [List.mem_cons, List.not_mem_nil, or_false] at mem
      obtain rfl | rfl := mem
      · exact ⟨_, rfl⟩
      · exact ⟨_, rfl⟩
    · obtain ⟨-, s, -, text⟩ := text_of_mem_textMember mem
      exact ⟨s, text⟩

theorem generic_context (f : ContextFile) : Generic (contextValue f) := by
  refine generic_texts ["name", "text"] (.refl _) (by decide) fun m mem => ?_
  simp only [List.mem_cons, List.not_mem_nil, or_false] at mem
  obtain rfl | rfl := mem
  · exact ⟨_, rfl⟩
  · exact ⟨_, rfl⟩

/-- A valid request is written without floats. -/
theorem generic_members (sound : r.Sound) : Generic (.obj (r.members 1)) := by
  refine ⟨(r.members_names 1).nodup (by decide), genericMembers_iff.mpr fun m mem => ?_⟩
  simp only [members, List.mem_append] at mem
  have given : ∀ {α : Type} {name : String} {value : α → Json} {o : Option α}, (∀ a ∈ o, Generic (value a)) →
      m ∈ optMember name value o → Generic m.2 := by
    intro α name value o each mem
    cases o with
    | none => cases mem
    | some a =>
      rw [List.mem_singleton.mp mem]
      exact each a rfl
  have texts : ∀ {name s : String}, m ∈ textMember name s → Generic m.2 := by
    intro name s mem
    obtain ⟨-, s, -, text⟩ := text_of_mem_textMember mem
    rw [text]
    trivial
  obtain mem | mem | mem | mem | mem | mem | mem | mem := mem
  · simp only [List.mem_cons, List.not_mem_nil, or_false] at mem
    obtain rfl | rfl | rfl | rfl | rfl | rfl | rfl | rfl | rfl | rfl | rfl := mem
    · exact (by decide : -maxSafeInt < 1 ∧ 1 < maxSafeInt)
    · trivial
    · trivial
    · trivial
    · trivial
    · trivial
    · trivial
    · trivial
    · trivial
    · exact generic_items generic_artifact r.artifacts
    · trivial
  · exact texts mem
  · exact texts mem
  · exact given (fun g _ => generic_grant g) mem
  · have times : ∀ t ∈ if r.deadline = noTime then none else some r.deadline, Generic (timeValue t) :=
      fun _ _ => trivial
    exact given times mem
  · exact given (fun files _ => generic_items generic_context files) mem
  · refine given (fun command _ => generic_texts ["command"] (.refl _) (by decide) fun m mem => ⟨command, ?_⟩) mem
    rw [List.mem_singleton.mp mem]
  · refine given (fun d some_ => ?_) mem
    obtain ⟨rounds, timeout⟩ := validateDebate_ok sound.debate some_
    refine ⟨(List.Sublist.refl ["commitment", "rounds", "turn_timeout_s"]).nodup (by decide),
      genericMembers_iff.mpr fun m mem => ?_⟩
    simp only [List.mem_cons, List.not_mem_nil, or_false] at mem
    obtain rfl | rfl | rfl := mem
    · trivial
    · exact ⟨by rw [maxSafeInt]; omega, by rw [maxSafeInt]; omega⟩
    · exact ⟨by rw [maxSafeInt]; omega, by rw [maxSafeInt]; omega⟩

/-- So its canonical text exists. -/
theorem canonical_eq (sound : r.Sound) : r.canonical = .ok (canonicalText (.obj (r.members 1))) :=
  canonicalValue_eq (generic_members sound)

theorem parseStoredBodyObj_canonical (sound : r.Sound) :
    ∃ obj, parseStoredBodyObj (canonicalText (.obj (r.members 1))) = .ok obj ∧ SameMembers (r.members 1) obj := by
  obtain ⟨obj, e, same⟩ := (reordered_normal (.obj (r.members 1))).like
  refine ⟨obj, ?_, same⟩
  rw [parseStoredBodyObj, parseStrict_canonicalText (generic_members sound), e]

theorem requestOf_mail (valid : r.validate = .ok ()) (timed : r.Timed) {obj : JsonObject}
    (same : SameMembers (r.members 1) obj) (st : Style) {v : Json}
    (sent : Reordered (.obj [("request", .obj obj)]) v) :
    ∃ body, parseStrict (String.ofList (write st 0 v)) = .ok (.obj body) ∧ requestOf body = .ok r := by
  have generic : Generic (.obj obj) := (same.reordered.normal_eq (generic_members (sound_of_validate valid))).1
  have whole : Generic (.obj [("request", .obj obj)]) := ⟨List.nodup_singleton _, generic, trivial⟩
  obtain ⟨top, rfl, alike⟩ := sent.like
  obtain ⟨w, rfl, inner⟩ := SameMembers.singleton alike rfl
  obtain ⟨raw, rfl, same'⟩ := inner.like
  refine ⟨_, parseStrict_write st _ (sent.normal_eq whole).1, ?_⟩
  have decoded := decode_same valid timed (same.trans same')
  rw [requestOf]
  simp [Json.member, decoded, orBadBody]

theorem eq_of_canonical {r' : Object} (valid : r.validate = .ok ()) (timed : r.Timed) (valid' : r'.validate = .ok ())
    (timed' : r'.Timed) (same : r.canonical = r'.canonical) : r = r' := by
  have sound := sound_of_validate valid
  have sound' := sound_of_validate valid'
  rw [canonical_eq sound, canonical_eq sound'] at same
  obtain ⟨obj, e, alike⟩ :=
    (reordered_of_canonicalText (generic_members sound) (generic_members sound') (Except.ok.inj same)).like
  cases e
  have read := decode_same valid timed alike
  rw [decode_same valid' timed' ⟨_, .refl _, List.forall₂_same.mpr fun m _ => .refl m⟩] at read
  exact (Except.ok.inj read).symm

end Object

end Agentnet.Request
