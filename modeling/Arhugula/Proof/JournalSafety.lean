import Mathlib.Algebra.Ring.Int.Defs
import Arhugula.Durable.Log
import Arhugula.Proof.CodecSafety
import Arhugula.Spec.Journal

/-!
# Both journals are logs

A journal is a log of events whose keys are their ids (`Ideal`). What `append` stores is a record that its payload is
decoded to, so two records of one text are one (`wire_inj`), and `read` gives back the record that was stored
(`wire_loads`).
-/

namespace Arhugula

namespace Journal

open Strings Codec Durable

variable {h : Host} {v e e' p : Py} {t : Text} {calls : ℕ → Call}

/-! ## What a journal is -/

/-- **What a journal is**: a log of events, until it is closed. -/
structure Ideal where
  log : Log eventId
  closed : Bool

/-- A journal of nothing. -/
def Ideal.fresh : Ideal := ⟨Log.empty eventId, false⟩

/-- An event is added, or its number is returned if it is there. -/
noncomputable def Ideal.append (s : Ideal) (event : Py) : Ideal × Answer :=
  if s.closed then (s, .raised (.journal "journal is closed"))
  else
    match s.log.add event with
    | (log, some n) => ({ s with log := log }, .sequence n)
    | (_, none) => (s, .raised (.journal "event ID conflicts with existing payload"))

/-- What was added after a cursor. -/
def Ideal.read (s : Ideal) (after : ℕ) : Answer :=
  if s.closed then .raised (.journal "journal is closed") else .events (s.log.since after)

/-- A call of a journal. -/
noncomputable def Ideal.call (s : Ideal) : Call → Ideal × Answer
  | .append event =>
    match eventOf event.val with
    | .ok event => s.append event
    | .error e => (s, .raised e)
  | .read after =>
    match cursorOf after with
    | .ok n => (s, s.read n)
    | .error e => (s, .raised e)
  | .close => ({ s with closed := true }, .done)

/-! ## What is stored -/

/-- What `json.dumps` prints of a JSON value parses as a text of the value. -/
def Host.Faithful (h : Host) : Prop :=
  ∀ v t, Wf v → isJson v = true → h.dumps v = some t → ∃ d, h.parse t = some d ∧ Spells d v

/-- An event that was decoded from its payload. -/
structure Canonical (event payload : Py) : Prop where
  wf : Wf payload
  json : isJson payload = true
  decoded : decode payload = some event
  encoded : encode event = some payload
  event : isEvent event = true

theorem decode_isJson {r : Py} (hd : decode p = some r) : isJson p = true := by
  unfold decode decodeWith at hd
  split at hd
  · cases hd
  · rename_i hj
    simpa using hj

/-- The kind of a record is read off its payload. -/
theorem thaw_kind {kind kind' : Kind} {fields fields' : List (Text × Py)} (hw : Wf (thaw (.record kind fields)))
    (ht : thaw (.record kind fields) = thaw (.record kind' fields')) : kind = kind' := by
  rw [thaw, thaw] at ht
  rw [thaw, Wf] at hw
  injection ht with ht
  have hmem : ("kind".toList, Py.str kind.name) ∈ ordered (("kind".toList, .str kind.name) :: thawMembers fields) :=
    mem_ordered.2 List.mem_cons_self
  have hmem' : ("kind".toList, Py.str kind'.name) ∈ ordered (("kind".toList, .str kind.name) :: thawMembers fields) := by
    rw [ht]
    exact mem_ordered.2 List.mem_cons_self
  have hname := nodup_unique hw.1.nodup hmem hmem'
  injection hname with hname
  revert hname
  cases kind <;> cases kind' <;> decide

/-- **What `append` stores is decoded from its payload.** -/
theorem eventOf_canonical {v : Value} (he : eventOf v.val = .ok e) : Canonical e (thaw v.val) := by
  obtain ⟨v, hwf⟩ := v
  unfold eventOf at he
  split at he
  · cases he
  rename_i hv
  split at he
  case h_2 => cases he
  rename_i event hdecode
  cases he
  obtain ⟨p, henc, hdec⟩ := Option.bind_eq_some_iff.1 hdecode
  obtain ⟨rfl, -⟩ := decode_encode henc
  have hw := wf_thaw v hwf
  have hback := encode_decode hw hdec
  refine ⟨hw, decode_isJson hdec, hdec, hback, ?_⟩
  obtain ⟨⟨kind, fields, rfl⟩, hthaw⟩ := decode_thaw hw hdec
  cases v with
  | record kind' fields' =>
    have hkind : kind' = kind := thaw_kind hw hthaw.symm
    subst hkind
    cases kind' <;> simp [isEvent] at hv ⊢
  | _ => simp [isEvent] at hv

theorem wire_canonical (hc : Canonical e p) (hw : wire h e = .ok t) : h.dumps p = some t := by
  unfold wire at hw
  rw [hc.encoded] at hw
  dsimp only at hw
  split at hw
  · cases hw
  · rename_i hd
    cases hw
    exact hd

/-- **What is loaded is what was stored.** -/
theorem wire_loads (hf : h.Faithful) (hc : Canonical e p) (hw : wire h e = .ok t) : loads h.parse t = some e := by
  obtain ⟨d, hparse, hd⟩ := hf p t hc.wf hc.json (wire_canonical hc hw)
  rw [loads_spells hc.wf hparse hd, hc.decoded]

/-- Events of one text are one. -/
theorem wire_inj {p' : Py} (hf : h.Faithful) (hc : Canonical e p) (hc' : Canonical e' p') (hw : wire h e = .ok t)
    (hw' : wire h e' = .ok t) : e = e' := by
  have heq := wire_loads hf hc hw
  rw [wire_loads hf hc' hw'] at heq
  exact (Option.some.inj heq).symm

/-- What an event cannot be printed for is not an error of the journal. -/
theorem wire_error {err : Error} (hc : Canonical e p) (hw : wire h e = .error err) : err = .value := by
  unfold wire at hw
  rw [hc.encoded] at hw
  dsimp only at hw
  split at hw
  · cases hw
    rfl
  · cases hw

/-! ## The relation -/

/-- The text of an event that can be printed. -/
def textOf (h : Host) (event : Py) : Text :=
  match wire h event with
  | .ok t => t
  | .error _ => []

theorem textOf_eq (hw : wire h e = .ok t) : textOf h e = t := by
  unfold textOf
  rw [hw]

/-- The row of an event with its number. -/
def rowOf (h : Host) (x : ℕ × Py) : Row := ⟨x.1, eventId x.2, textOf h x.2⟩

/-- The events of a log were decoded from payloads that can be printed. -/
def Stored (h : Host) (items : List Py) : Prop := ∀ e ∈ items, ∃ p t, Canonical e p ∧ wire h e = .ok t

/-- **Both journals hold a log.** -/
structure Holds (h : Host) (x : Memory × Lite) (s : Ideal) : Prop where
  memoryClosed : x.1.closed = s.closed
  liteClosed : x.2.closed = s.closed
  events : x.1.events = numbered s.log.items
  ids : x.1.ids = (numbered s.log.items).map fun y => (eventId y.2, y)
  rows : x.2.rows = (numbered s.log.items).map (rowOf h)
  last : x.2.last = s.log.items.length
  stored : Stored h s.log.items

theorem holds_fresh : Holds h (.fresh, .fresh) .fresh := ⟨rfl, rfl, rfl, rfl, rfl, rfl, fun _ he => by cases he⟩

variable {x : Memory × Lite} {s : Ideal} {n : ℕ}

theorem find_ids (hx : Holds h x s) (id : Text) :
    x.1.ids.find? (fun y => y.1 = id) = (s.log.find id).map fun y => (eventId y.2, y) := by
  rw [hx.ids, List.find?_map]
  rfl

theorem find_rows (hx : Holds h x s) (id : Text) :
    x.2.rows.find? (fun row => row.eventId = id) = (s.log.find id).map (rowOf h) := by
  rw [hx.rows, List.find?_map]
  rfl

/-- The rows of events that were stored are read as these. -/
theorem readRows_stored (hf : h.Faithful) (l : List (ℕ × Py)) (hl : ∀ y ∈ l, ∃ p t, Canonical y.2 p ∧ wire h y.2 = .ok t) :
    readRows h (l.map (rowOf h)) = .ok l := by
  induction l with
  | nil => rfl
  | cons y l ih =>
    obtain ⟨p, t, hc, hw⟩ := hl y List.mem_cons_self
    have hrest := ih fun z hz => hl z (List.mem_cons_of_mem _ hz)
    have hload : loads h.parse (rowOf h y).payload = some y.2 := by
      have htext : (rowOf h y).payload = t := textOf_eq hw
      rw [htext]
      exact wire_loads hf hc hw
    have hid : (rowOf h y).eventId = eventId y.2 := rfl
    rw [List.map_cons, readRows, hload]
    dsimp only
    rw [hc.event, hid, hrest]
    simp
    rfl

/-! ## Calls -/

/-- A call that both journals do alike: the event can be printed, and the cursor can be bound unless the journal is
closed. -/
def Meets (h : Host) (s : Lite) : Call → Prop
  | .append event => ∀ e, eventOf event.val = .ok e → ∃ t, wire h e = .ok t
  | .read after => s.closed = false → ∀ n, cursorOf after = .ok n → n < 2 ^ 63
  | .close => True

/-- Both journals and the log after a call, and what they return. -/
def Alike (h : Host) (x : Memory × Lite) (s : Ideal) (c : Call) : Prop :=
  ((Memory.call h x.1 c).2 = (s.call c).2 ∧ (Lite.call h x.2 c).2 = (s.call c).2) ∧
    Holds h ((Memory.call h x.1 c).1, (Lite.call h x.2 c).1) (s.call c).1

theorem numbered_stored (hx : Holds h x s) : ∀ y ∈ numbered s.log.items, ∃ p t, Canonical y.2 p ∧ wire h y.2 = .ok t :=
  fun _ hy => hx.stored _ (snd_mem hy)

/-- What both journals do with an event that can be printed. -/
theorem append_alike (hf : h.Faithful) (hx : Holds h x s) {v : Value} (he : eventOf v.val = .ok e) (hw : wire h e = .ok t) :
    Alike h x s (.append v) := by
  have hc := eventOf_canonical he
  unfold Alike Memory.call Lite.call Memory.append Lite.append Ideal.call Ideal.append
  simp only [he, hw, bind, Except.bind]
  by_cases hclosed : s.closed = true
  · have hm := hx.memoryClosed.trans hclosed
    have hl := hx.liteClosed.trans hclosed
    simp only [hm, hl, hclosed, if_true, throw, throwThe, MonadExceptOf.throw]
    exact ⟨⟨trivial, trivial⟩, hx⟩
  have hm : ¬x.1.closed = true := by rwa [hx.memoryClosed]
  have hl : ¬x.2.closed = true := by rwa [hx.liteClosed]
  simp only [if_neg hclosed, if_neg hm, if_neg hl, find_ids hx, find_rows hx]
  cases hfind : s.log.find (eventId e) with
  | none =>
    simp only [Option.map_none, Log.add_new hfind, pure, Except.pure, hx.events, length_numbered, hx.last]
    refine ⟨⟨trivial, trivial⟩, hx.memoryClosed, hx.liteClosed, numbered_append.symm, ?_, ?_, ?_, fun e' he' => ?_⟩
    · have happend : (Log.push e hfind).items = s.log.items ++ [e] := rfl
      dsimp only
      rw [happend, numbered_append, List.map_append, hx.ids]
      rfl
    · have happend : (Log.push e hfind).items = s.log.items ++ [e] := rfl
      dsimp only
      rw [happend, numbered_append, List.map_append, hx.rows, ← textOf_eq hw]
      rfl
    · have happend : (Log.push e hfind).items = s.log.items ++ [e] := rfl
      dsimp only
      rw [happend, List.length_append]
      rfl
    · rcases List.mem_append.1 he' with hold | hnew
      · exact hx.stored e' hold
      · rw [List.mem_singleton.1 hnew]
        exact ⟨_, t, hc, hw⟩
  | some y =>
    obtain ⟨n, b⟩ := y
    obtain ⟨hmem, hid⟩ := Log.find_mem hfind
    obtain ⟨q, u, hb, hu⟩ := numbered_stored hx _ hmem
    dsimp only at hb hu
    have htext : (rowOf h (n, b)).payload = u := textOf_eq hu
    simp only [Option.map_some, hu, htext]
    by_cases hsame : u = t
    · have hbe : b = e := wire_inj hf hb hc hu (hsame ▸ hw)
      subst hbe
      simp only [hsame, Log.add_again hfind, ne_eq, not_true_eq_false, if_false, pure, Except.pure]
      exact ⟨⟨trivial, rfl⟩, hx⟩
    · have hbe : b ≠ e := by
        rintro rfl
        rw [hw] at hu
        cases hu
        exact hsame rfl
      simp only [Log.add_other hfind hbe, ne_eq, hsame, not_false_eq_true, if_true, throw, throwThe, MonadExceptOf.throw]
      exact ⟨⟨trivial, trivial⟩, hx⟩

/-- What cannot be printed is not appended to the table, and that is not an answer of a journal. -/
theorem append_unprintable {v : Value} {err : Error} (he : eventOf v.val = .ok e) (hw : wire h e = .error err) :
    (Lite.call h x.2 (.append v)).2 ≠ (s.call (.append v)).2 := by
  have hc := eventOf_canonical he
  have herr := wire_error hc hw
  subst herr
  unfold Lite.call Lite.append Ideal.call Ideal.append
  simp only [he, hw, bind, Except.bind]
  split
  · simp
  · split <;> simp

/-- What is selected of the table are the rows of what was added after the cursor. -/
theorem select_since (hx : Holds h x s) : ((x.2.rows.filter fun row => n < row.sequence).insertionSort
    fun a b => a.sequence ≤ b.sequence) = (s.log.since n).map (rowOf h) := by
  have hfilter : (x.2.rows.filter fun row => n < row.sequence) = (s.log.since n).map (rowOf h) := by
    rw [hx.rows, List.filter_map, Log.since, ← numbered_since]
    rfl
  rw [hfilter]
  refine List.Pairwise.insertionSort_eq ?_
  rw [List.pairwise_map]
  unfold Log.since
  exact (numbered_sorted.sublist (List.drop_sublist _ _)).imp fun hlt => le_of_lt hlt

/-- What both journals do when they are read at a cursor that can be bound. -/
theorem read_alike (hf : h.Faithful) (hx : Holds h x s) {after : Py}
    (hn : x.2.closed = false → ∀ n, cursorOf after = .ok n → n < 2 ^ 63) : Alike h x s (.read after) := by
  unfold Alike Memory.call Lite.call Memory.read Lite.read Ideal.call Ideal.read
  cases hcursor : cursorOf after with
  | error err =>
    simp only [hcursor, bind, Except.bind]
    exact ⟨⟨trivial, trivial⟩, hx⟩
  | ok n =>
    simp only [hcursor, bind, Except.bind]
    by_cases hclosed : s.closed = true
    · have hm := hx.memoryClosed.trans hclosed
      have hl := hx.liteClosed.trans hclosed
      simp only [hm, hl, hclosed, if_true, throw, throwThe, MonadExceptOf.throw]
      exact ⟨⟨trivial, trivial⟩, hx⟩
    have hm : ¬x.1.closed = true := by rwa [hx.memoryClosed]
    have hl : ¬x.2.closed = true := by rwa [hx.liteClosed]
    have hbound : bound n = .ok n := if_pos (hn (by simpa using hl) n hcursor)
    have hread := readRows_stored hf (s.log.since n) fun y hy => numbered_stored hx y (List.mem_of_mem_drop hy)
    simp only [if_neg hclosed, if_neg hm, if_neg hl, hbound, select_since hx, hread, hx.events, pure, Except.pure]
    exact ⟨⟨rfl, trivial⟩, hx⟩

/-- A cursor that cannot be bound is answered by another exception. -/
theorem read_unbound (hx : Holds h x s) {after : Py} (hopen : x.2.closed = false) (hcursor : cursorOf after = .ok n)
    (hn : ¬n < 2 ^ 63) : (Lite.call h x.2 (.read after)).2 ≠ (s.call (.read after)).2 := by
  have hclosed : s.closed = false := hx.liteClosed.symm.trans hopen
  have hbound : bound n = .error .overflow := if_neg hn
  unfold Lite.call Lite.read Ideal.call Ideal.read
  simp [hcursor, hopen, hclosed, hbound, bind, Except.bind]

/-- **A call that both journals do alike keeps the log that they hold.** -/
theorem call_alike (hf : h.Faithful) (hx : Holds h x s) {c : Call} (hc : Meets h x.2 c) : Alike h x s c := by
  cases c with
  | append v =>
    cases he : eventOf v.val with
    | error err =>
      unfold Alike Memory.call Lite.call Memory.append Lite.append Ideal.call
      simp only [he, bind, Except.bind]
      exact ⟨⟨trivial, trivial⟩, hx⟩
    | ok e =>
      obtain ⟨t, hw⟩ := hc e he
      exact append_alike hf hx he hw
  | read after => exact read_alike hf hx hc
  | close => exact ⟨⟨rfl, rfl⟩, { hx with memoryClosed := rfl, liteClosed := rfl }⟩

/-- A call that they do not do alike is answered otherwise by the table. -/
theorem call_meets (hx : Holds h x s) {c : Call} (hsame : (Lite.call h x.2 c).2 = (s.call c).2) : Meets h x.2 c := by
  cases c with
  | append v =>
    intro e he
    cases hw : wire h e with
    | ok t => exact ⟨t, rfl⟩
    | error err => exact absurd hsame (append_unprintable he hw)
  | read after =>
    intro hopen n hcursor
    by_contra hn
    exact read_unbound hx hopen hcursor hn hsame
  | close => trivial

/-! ## Runs -/

/-- The `SQLiteJournal` after `n` calls. -/
abbrev lite (h : Host) (calls : ℕ → Call) : ℕ → Lite := Calls.after (Lite.call h) .fresh calls

/-- **Both journals answer every call of a run as a log does.** -/
def Agree (h : Host) (calls : ℕ → Call) : Prop := ∀ n,
  Calls.answer (Memory.call h) .fresh calls n = Calls.answer Ideal.call .fresh calls n ∧
    Calls.answer (Lite.call h) .fresh calls n = Calls.answer Ideal.call .fresh calls n

/-- **The journals agree** if and only if every event that is appended can be printed, and the cursor of every read of an
open journal can be bound to a statement. -/
theorem agree_iff (hf : h.Faithful) (calls : ℕ → Call) : Agree h calls ↔ ∀ n, Meets h (lite h calls n) (calls n) := by
  have hpairs : (∀ n, Calls.answer (Calls.both (Memory.call h) (Lite.call h)) (.fresh, .fresh) calls n =
      Calls.answer (Calls.both Ideal.call Ideal.call) (.fresh, .fresh) calls n) ↔
      ∀ n, Meets h (Calls.after (Calls.both (Memory.call h) (Lite.call h)) (.fresh, .fresh) calls n).2 (calls n) := by
    refine Calls.simulation (fun x s => Holds h x s.1 ∧ s.2 = s.1) (fun x c => Meets h x.2 c) ⟨holds_fresh, rfl⟩ ?_ ?_
    · rintro x ⟨s, s'⟩ c ⟨hx, hs⟩
      dsimp only at hx hs
      rw [hs]
      simp only [Calls.both, Prod.mk.injEq]
      exact ⟨fun hsame => call_meets hx hsame.2, fun hc => (call_alike hf hx hc).1⟩
    · rintro x ⟨s, s'⟩ c ⟨hx, hs⟩ hc
      dsimp only at hx hs
      rw [hs]
      exact ⟨(call_alike hf hx hc).2, rfl⟩
  simp only [Calls.answer_both, Calls.after_both, Prod.mk.injEq] at hpairs
  exact hpairs

namespace Example

/-- A context. -/
def context : List (Text × Py) :=
  [("session_id".toList, .str "s1".toList), ("profile_id".toList, .str "p1".toList), ("lane_id".toList, .none),
    ("agent_id".toList, .none), ("source".toList, .str "voice".toList), ("provider_id".toList, .none),
    ("model_version".toList, .none), ("provenance".toList, .str "microphone".toList),
    ("sensitivity".toList, .str "private".toList)]

/-- The fields of a voice observation but its context. -/
def fields (context : Py) : List (Text × Py) :=
  [("version".toList, .int 1), ("event_id".toList, .str "e1".toList), ("session_id".toList, .str "s1".toList),
    ("activation_id".toList, .str "a1".toList), ("correlation_id".toList, .str "k1".toList),
    ("timestamp_ms".toList, .int 1), ("context".toList, context), ("phase".toList, .str "capture.started".toList),
    ("status".toList, .str "recording".toList), ("code".toList, .str "capture.started".toList)]

/-- A voice observation. -/
def observation : Value where
  val := .record .voiceObservation (fields (.proxy (ordered context)))
  wf := by
    have hcontext : Sorted (ordered context) := ordered_sorted (by decide)
    have hvalues : WfMembers (ordered context) := wfMembers_iff.2 fun m hm => by
      have hm' := mem_ordered.1 hm
      simp only [context, List.mem_cons, List.not_mem_nil, or_false] at hm'
      rcases hm' with rfl | rfl | rfl | rfl | rfl | rfl | rfl | rfl | rfl <;> simp [Wf]
    rw [Wf]
    refine ⟨rfl, ?_⟩
    simp only [fields, WfMembers, Wf, and_true, true_and]
    exact ⟨hcontext, hvalues⟩

/-- Its payload. -/
def payload : Py := thaw observation.val

/-- The text of the payload, as it is parsed. -/
def document : Doc :=
  .obj [("activation_id".toList, .str "a1".toList), ("code".toList, .str "capture.started".toList),
    ("context".toList, .obj [("agent_id".toList, .null), ("lane_id".toList, .null), ("model_version".toList, .null),
      ("profile_id".toList, .str "p1".toList), ("provenance".toList, .str "microphone".toList),
      ("provider_id".toList, .null), ("sensitivity".toList, .str "private".toList), ("session_id".toList, .str "s1".toList),
      ("source".toList, .str "voice".toList)]),
    ("correlation_id".toList, .str "k1".toList), ("event_id".toList, .str "e1".toList),
    ("kind".toList, .str "voice-observation".toList), ("phase".toList, .str "capture.started".toList),
    ("session_id".toList, .str "s1".toList), ("status".toList, .str "recording".toList),
    ("timestamp_ms".toList, .int 1), ("version".toList, .int 1)]

/-- The text. -/
def text : Text :=
  ("\x7b\"activation_id\":\"a1\",\"code\":\"capture.started\",\"context\":\x7b\"agent_id\":null,\"lane_id\":null," ++
    "\"model_version\":null,\"profile_id\":\"p1\",\"provenance\":\"microphone\",\"provider_id\":null," ++
    "\"sensitivity\":\"private\",\"session_id\":\"s1\",\"source\":\"voice\"\x7d,\"correlation_id\":\"k1\"," ++
    "\"event_id\":\"e1\",\"kind\":\"voice-observation\",\"phase\":\"capture.started\",\"session_id\":\"s1\"," ++
    "\"status\":\"recording\",\"timestamp_ms\":1,\"version\":1\x7d").toList

/-- What prints and parses this one payload. -/
def host : Host where
  dumps v := if sameText v payload then some text else none
  parse t := if t = text then some document else none

theorem host_faithful : host.Faithful := by
  intro v t _ _ ht
  unfold host at ht
  dsimp only at ht
  split at ht
  · rename_i hsame
    rw [sameText_eq v payload hsame, ← Option.some.inj ht]
    refine ⟨document, ?_, spells_build _ _ rfl⟩
    unfold host
    dsimp only
    rw [if_pos rfl]
  · cases ht

/-- The observation is appended twice and read, and the journal is closed. -/
def run (n : ℕ) : Call :=
  match n with
  | 0 | 1 => .append observation
  | 2 => .read (.int 0)
  | _ => .close

theorem printed {e : Py} (he : eventOf observation.val = .ok e) : ∃ t, wire host e = .ok t := by
  have hc := eventOf_canonical he
  have hprint : (if sameText payload payload then some text else none) = some text := if_pos (by decide +kernel)
  refine ⟨text, ?_⟩
  unfold wire
  rw [hc.encoded]
  dsimp only [host]
  rw [← payload, hprint]
  rfl

end Example

/-- The run of the example is answered as a log answers it. -/
theorem agree_example : Agree Example.host Example.run := by
  refine (agree_iff Example.host_faithful Example.run).2 fun n => ?_
  match n with
  | 0 | 1 => exact fun e he => Example.printed he
  | 2 => exact fun _ n hn => by cases hn; decide
  | _ + 3 => trivial

/-- A cursor outside 64 bits is answered by another exception than those of a journal. -/
theorem disagree : Example.host.Faithful ∧ ¬Agree Example.host fun _ => .read (.int (2 ^ 63)) := by
  refine ⟨Example.host_faithful, fun hagree => ?_⟩
  have hmeets := (agree_iff Example.host_faithful _).1 hagree 0
  have hlt : 2 ^ 63 < 2 ^ 63 := hmeets rfl (2 ^ 63) rfl
  exact absurd hlt (lt_irrefl _)

end Journal

end Arhugula
