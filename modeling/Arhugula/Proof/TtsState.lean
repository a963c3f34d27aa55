import Arhugula.Reentrant.Keeps
import Arhugula.Proof.SessionSafety
import Arhugula.Spec.Tts

/-!
# What a speech output owes

`due` reads off the log what a `TtsOutput` has obtained and not let go of yet, `Sound` is how its call
accounts for that, and `Linked` what may have changed since the last entry. `outputContract` is its
contract: what nested calls and other threads may do while a call is under way.
-/

namespace Arhugula

namespace Tts

open Reentrant Session

variable {digest : Providers.Manifest → String} {b : Binding} {w w' w₁ w₂ : TWorld digest}
  {d d' : TtsOutput} {log log' l : List (TEntry digest)} {e : TEntry digest} {ctx : List (ℕ × Op)} {i : ℕ}
  {op : Op} {a : Answer digest} {c : Call}

/-! ## What the log says -/

/-- A callback raised what is no `Exception`. -/
def Disturbed (log : List (TEntry digest)) : Prop := ∃ e ∈ log, ∃ op, e.act = .reply op (.raised true)

/-- What was obtained and not let go of: mix leases, players, and a call that the gateway accepted,
whose cancellation may have begun. `clean`: all that was to prove something has proven it, and each
factory has made what it is to make. -/
structure Due where
  leases : List ℕ
  players : List ℕ
  accepted : Bool
  canceled : Bool
  clean : Bool

/-- Nothing is due. -/
def Due.nothing : Due := ⟨[], [], false, false, true⟩

/-- What a callback lets go of when it is called. -/
def Due.call (u : Due) : Op → Due
  | .restore n => { u with leases := u.leases.erase n }
  | .cancel n => { u with players := u.players.erase n }
  | .gatewayCancel => { u with canceled := true }
  | _ => u

/-- What the poll after a cancellation leaves. -/
def Due.drain (u : Due) (clean : Bool) : Due :=
  { u with accepted := false, canceled := false, clean := u.clean && clean }

/-- A proof that is wanted. -/
def Due.prove (u : Due) (proven : Bool) : Due := { u with clean := u.clean && proven }

/-- A callback that raises. -/
def Answer.raises : Answer digest → Bool
  | .raised _ => Bool.true
  | _ => false

/-- What an answer gives, proves, or takes away. -/
def Due.reply (u : Due) (op : Op) (a : Answer digest) : Due :=
  match op with
  | .mixes =>
    match a with
    | .handle n complete => { u with leases := n :: u.leases, clean := u.clean && complete }
    | _ => { u with clean := false }
  | .players =>
    match a with
    | .handle n complete => { u with players := n :: u.players, clean := u.clean && complete }
    | _ => { u with clean := false }
  | .restore _ | .cancel _ | .gatewayProven => u.prove a.isTrue
  | .gatewayStart _ =>
    match a with
    | .raised _ | .gatewayError _ => u
    | _ => { u with accepted := true }
  | .gatewayCancel => if a.raises then u.drain false else u
  | .gatewayPoll =>
    match a with
    | .result _ => u.drain true
    | a => if u.canceled then u.drain (!a.raises) else u
  | _ => u

/-- **What is due.** -/
def due : List (TEntry digest) → Due
  | [] => .nothing
  | e :: log =>
    match e.act with
    | .call op => (due log).call op
    | .reply op a => (due log).reply op a
    | _ => due log

/-- How many cancellations were called. -/
def cancels : List (TEntry digest) → ℕ
  | [] => 0
  | e :: log =>
    match e.act with
    | .invoke .cancel | .invoke .invalidate => cancels log + 1
    | _ => cancels log

/-- The last answer to a callback. -/
def answered (op : Op) : List (TEntry digest) → Option (Answer digest)
  | [] => none
  | e :: log =>
    match e.act with
    | .reply op' a => if op' = op then some a else answered op log
    | _ => answered op log

/-! ## Quiet entries -/

/-- An entry of a call that made no callback. -/
def Quiet (e : TEntry digest) : Prop := (∃ m, e.act = .invoke m) ∨ ∃ r, e.act = .ret r

theorem due_quiet (h : Quiet e) : due (e :: log) = due log := by
  rcases h with ⟨m, hm⟩ | ⟨r, hr⟩ <;> simp only [due, *]

theorem answered_quiet (h : Quiet e) : answered op (e :: log) = answered op log := by
  rcases h with ⟨m, hm⟩ | ⟨r, hr⟩ <;> simp only [answered, *]

theorem disturbed_cons (h : Disturbed log) : Disturbed (e :: log) := by
  obtain ⟨m, hm, hact⟩ := h
  exact ⟨m, List.mem_cons_of_mem e hm, hact⟩

theorem disturbed_quiet (h : Quiet e) : Disturbed (e :: log) ↔ Disturbed log := by
  refine ⟨?_, disturbed_cons⟩
  rintro ⟨m, hm, op, hact⟩
  rcases List.mem_cons.1 hm with rfl | hm
  · rcases h with ⟨x, hx⟩ | ⟨r, hr⟩
    · rw [hact] at hx
      cases hx
    · rw [hact] at hr
      cases hr
  · exact ⟨m, hm, op, hact⟩

/-- A log that grew by quiet entries only. -/
def Quieter (log log' : List (TEntry digest)) : Prop := ∃ l, log' = l ++ log ∧ ∀ e ∈ l, Quiet e

theorem Quieter.refl (log : List (TEntry digest)) : Quieter log log := ⟨[], rfl, fun _ he => by cases he⟩

theorem Quieter.trans {log'' : List (TEntry digest)} (h : Quieter log log') (h' : Quieter log' log'') :
    Quieter log log'' := by
  obtain ⟨l, rfl, hl⟩ := h
  obtain ⟨l', rfl, hl'⟩ := h'
  refine ⟨l' ++ l, by rw [List.append_assoc], fun e he => ?_⟩
  rcases List.mem_append.1 he with he | he
  · exact hl' e he
  · exact hl e he

theorem Quieter.cons (h : Quieter log log') (he : Quiet e) : Quieter log (e :: log') := by
  obtain ⟨l, rfl, hl⟩ := h
  refine ⟨e :: l, rfl, fun m hm => ?_⟩
  rcases List.mem_cons.1 hm with rfl | hm
  · exact he
  · exact hl m hm

theorem Quieter.due (h : Quieter log log') : due log' = due log := by
  obtain ⟨l, rfl, hl⟩ := h
  induction l with
  | nil => rfl
  | cons e l ih =>
    rw [List.cons_append, due_quiet (hl e List.mem_cons_self)]
    exact ih fun m hm => hl m (List.mem_cons_of_mem e hm)

theorem Quieter.answered (h : Quieter log log') : answered op log' = answered op log := by
  obtain ⟨l, rfl, hl⟩ := h
  induction l with
  | nil => rfl
  | cons e l ih =>
    rw [List.cons_append, answered_quiet (hl e List.mem_cons_self)]
    exact ih fun m hm => hl m (List.mem_cons_of_mem e hm)

theorem Quieter.disturbed (h : Quieter log log') : Disturbed log' ↔ Disturbed log := by
  obtain ⟨l, rfl, hl⟩ := h
  induction l with
  | nil => exact Iff.rfl
  | cons e l ih =>
    rw [List.cons_append, disturbed_quiet (hl e List.mem_cons_self)]
    exact ih fun m hm => hl m (List.mem_cons_of_mem e hm)

/-! ## The call -/

/-- **A call that was started** by a `start` of its utterance, before which there had been as many
cancellations as its epoch says; its generation was accepted by the owner. -/
def Born (log : List (TEntry digest)) (c : Call) : Prop :=
  ∃ mid k before u, log = mid ++ k :: before ∧ k.act = .invoke (.start (some u)) ∧ c.epoch = cancels before ∧
    c.snapshot.currentTurn = some u.token ∧ ∃ m ∈ log, m.st.owner.accepts (some u.token.generation) = true

theorem Born.grow (h : Born log c) (l : List (TEntry digest)) : Born (l ++ log) c := by
  obtain ⟨mid, k, before, u, rfl, hk, hepoch, hturn, m, hm, hacc⟩ := h
  exact ⟨l ++ mid, k, before, u, by rw [List.append_assoc], hk, hepoch, hturn, m, List.mem_append_right l hm, hacc⟩

theorem Born.change {c' : Call} (h : Born log c) (hs : c'.snapshot = c.snapshot) (he : c'.epoch = c.epoch) :
    Born log c' := by
  obtain ⟨mid, k, before, u, hlog, hk, hepoch, hturn, hacc⟩ := h
  exact ⟨mid, k, before, u, hlog, hk, he.trans hepoch, hs ▸ hturn, hacc⟩

/-- **The last check found a call fresh**: the last sample is its snapshot, and the configuration was
last active at the revision of its policy. -/
def Checked (log : List (TEntry digest)) (c : Call) : Prop :=
  answered .sample log = some (.snapshot c.snapshot) ∧
    ∃ candidate p, c.snapshot.policy = some p ∧
      answered .state log = some (.status (.active p.configurationRevision candidate))

theorem Checked.quieter (h : Checked log c) (hq : Quieter log log') : Checked log' c := by
  obtain ⟨hs, candidate, p, hp, ha⟩ := h
  exact ⟨hq.answered.trans hs, candidate, p, hp, hq.answered.trans ha⟩

/-- **How the call accounts for what is due.** -/
structure Sound (u : Due) (call : Option Call) (fault : Bool) : Prop where
  leases : u.leases = (call.bind Call.mix).toList
  players : u.players = (call.bind Call.player).toList
  accepted : u.accepted = call.any Call.gatewayOwned
  canceled : u.canceled = false
  clean : u.clean = true ∨ fault = true ∨ ∃ c, call = some c ∧ (c.unknown = true ∨ c.synthesisClean = false)

/-! ## What an entry owes -/

/-- What a client does to the owner. -/
def Method.clients : Method → Bool
  | .ownerBegin _ | .ownerCancel _ | .ownerRelease _ _ => true
  | _ => false

/-- **How the owner may change**: by a client, or by a fault of the generation that is borrowed. -/
def OwnerStep (m : TEntry digest) (o : SessionOwner) : Prop :=
  o = m.st.owner ∨ (∃ x, m.act = .invoke x ∧ x.clients = true) ∨
    ∃ c g, m.st.call = some c ∧ c.generation = some g ∧ m.st.owner.owner = some g ∧
      o = { m.st.owner with state := .faulted }

/-- **A completion that was published** when the call was neither canceled nor stale. -/
def Proper (older : List (TEntry digest)) (m : TEntry digest) (o : SessionOwner) : Prop :=
  ∃ call g, m.st.call = some call ∧ call.generation = some g ∧ o.accepts (some g) = true ∧
    call.epoch = cancels older ∧ Born older call ∧ Checked older call

/-- The code of a call that was played. -/
def Code.success (c : Code) : Prop := c = .played ∨ c = .degraded

/-- Nothing that was obtained is left. -/
def Due.Free (u : Due) : Prop := u.leases = [] ∧ u.players = [] ∧ u.accepted = false

/-- **What may have changed since an entry**: a fault stays, a success that is published is proper, and
a call is dropped where nothing that was obtained is left. -/
structure Follows (log : List (TEntry digest)) (m : TEntry digest) (s : TtsOutput) : Prop where
  fault : m.st.fault = true → s.fault = true
  owner : OwnerStep m s.owner
  published : ∀ c, s.terminal = some c → m.st.terminal = some c ∨ (c.code.success → Proper log m s.owner)
  dropped : m.st.call ≠ none → s.call = none → Disturbed log ∨ (due log).Free

/-- **What may have changed since the last entry.** -/
def Linked (log : List (TEntry digest)) (s : TtsOutput) : Prop :=
  match log with
  | [] => s.fault = false ∧ s.terminal = none
  | m :: _ => Follows log m s

/-- A callback that lets go of something lets go of what is due. -/
def Obliged (op : Op) (u : Due) : Prop :=
  match op with
  | .restore n => n ∈ u.leases
  | .cancel n => n ∈ u.players
  | .gatewayCancel => u.accepted = true ∧ u.canceled = false
  | _ => True

/-- What an entry owes to the entries before it. -/
structure Owes (e : TEntry digest) (older : List (TEntry digest)) : Prop where
  linked : Linked older e.st
  obliged : ∀ op, e.act = .call op → ¬ Disturbed older → Obliged op (due older)

/-! ## The contract -/

/-- What is known whatever is under way. -/
structure Core (w : TWorld digest) : Prop where
  owes : Throughout Owes w.log
  count : w.st.epoch = cancels w.log
  born : ∀ c, w.st.call = some c → Born w.log c

/-- Nothing has changed since the last entry. -/
def Level (log : List (TEntry digest)) (s : TtsOutput) : Prop :=
  match log with
  | [] => s.fault = false ∧ s.terminal = none
  | m :: _ => m.st = s

theorem Level.linked (h : Level log d) : Linked log d := by
  cases log with
  | nil => exact h
  | cons m log =>
    have hm : m.st = d := h
    rw [← hm]
    exact ⟨id, .inl rfl, fun c hc => .inl hc, fun hm hd => absurd hd hm⟩

/-- **While the gateway is asked**, nothing else was obtained, and nothing is unknown. -/
def Early (s : TtsOutput) : Prop :=
  s.phase = .synthesizing → ∀ c, s.call = some c →
    c.mix = none ∧ c.player = none ∧ c.unknown = false ∧ c.synthesisClean = true

/-- **The invariant.** -/
structure TInv (w : TWorld digest) : Prop extends Core w where
  level : Level w.log w.st
  sound : w.st.busy = false → Disturbed w.log ∨ Sound (due w.log) w.st.call w.st.fault
  early : w.st.busy = false → Disturbed w.log ∨ Early w.st

/-- **What may change while a call is under way**: the epoch and the owner. -/
structure Moves (w w' : TWorld digest) : Prop where
  own : w'.st.toSlot = w.st.toSlot
  quieter : Quieter w.log w'.log

theorem Moves.refl (w : TWorld digest) : Moves w w := ⟨rfl, .refl w.log⟩

theorem Moves.trans (h : Moves w w₁) (h' : Moves w₁ w₂) : Moves w w₂ :=
  ⟨h'.own.trans h.own, h.quieter.trans h'.quieter⟩

/-- **The contract of the output.** -/
def outputContract (digest : Providers.Manifest → String) (b : Binding) : Contract (output digest b) where
  Inv := TInv
  Rel _ w w' := (w.st.busy = false → w'.st.busy = false) ∧ (w.st.busy = true → Moves w w')
  refl _ w := ⟨id, fun _ => .refl w⟩
  trans h h' := by
    refine ⟨fun hb => h'.1 (h.1 hb), fun hb => ?_⟩
    have hm := h.2 hb
    have hbusy := (congrArg Slot.busy hm.own :)
    exact hm.trans (h'.2 (hbusy.trans hb))

/-! ## Callbacks -/

/-- What is known between the callbacks of a call. -/
structure Mid (w : TWorld digest) : Prop extends Core w where
  linked : Linked w.log w.st
  busy : w.st.busy = true

theorem cancels_call {i : ℕ} {op : Op} {s : TtsOutput} : cancels (⟨i, .call op, s⟩ :: log) = cancels log := rfl

theorem Born.cons (h : Born log c) : Born (e :: log) c := h.grow [e]

/-- An act that no cancellation begins with. -/
theorem Core.push (h : Core w) (hl : Linked w.log w.st) {x : Act Op (Answer digest) Exc Method Value}
    (hx : ∀ op, x = .call op → ¬ Disturbed w.log → Obliged op (due w.log))
    (hc : x ≠ .invoke .cancel ∧ x ≠ .invoke .invalidate) : Core (w.push i x) := by
  refine ⟨⟨⟨hl, hx⟩, h.owes⟩, ?_, fun c hc => (h.born c hc).cons⟩
  have hsame : cancels (w.push i x).log = cancels w.log := by
    cases x with
    | invoke m =>
      cases m with
      | cancel => exact absurd rfl hc.1
      | invalidate => exact absurd rfl hc.2
      | _ => rfl
    | _ => rfl
  rw [hsame]
  exact h.count

/-- **What a callback leaves.** -/
structure Asked (b : Binding) (i : ℕ) (op : Op) (w : TWorld digest) (a : Answer digest) (w' : TWorld digest) : Prop
    extends Mid w' where
  own : w'.st.toSlot = w.st.toSlot
  due : due w'.log = ((due w.log).call op).reply op a
  disturbed : Disturbed w'.log ↔ a = .raised true ∨ Disturbed w.log
  answered : ∀ op', answered op' w'.log = if op = op' then some a else answered op' w.log
  fresh : ∃ l, w'.log = ⟨i, .reply op a, w'.st⟩ :: l
  legal : (output digest b).legal w op a = true

theorem holds_call (h : Mid w) (op : Op) (ho : ¬ Disturbed w.log → Obliged op (due w.log)) :
    Holds (outputContract digest b) ctx i (Prog.ask op) (fun r w' => ∃ a, r = .ok a ∧ Asked b i op w a w') w := by
  rw [holds_ask]
  have hcalled : Core (w.push i (.call op)) := by
    refine h.toCore.push h.linked (fun op' hop => ?_) ⟨by simp, by simp⟩
    cases hop
    exact ho
  have hbusy₁ : (w.push i (.call op)).st.busy ≠ false := by
    rw [World.push_st, h.busy]
    simp
  refine ⟨⟨hcalled, rfl, fun hb => absurd hb hbusy₁, fun hb => absurd hb hbusy₁⟩, fun w' hi hg hr a ha => ⟨a, rfl, ?_⟩⟩
  have hm := hr.2 h.busy
  have hbusy : w'.st.busy = true := (congrArg Slot.busy hm.own).trans h.busy
  have hreplied : Core (w'.push i (.reply op a)) :=
    hi.toCore.push hi.level.linked (fun op' hop => by cases hop) ⟨by simp, by simp⟩
  refine ⟨⟨hreplied, Level.linked (d := w'.st) rfl, hbusy⟩, hm.own, ?_, ?_, fun op' => ?_, ⟨_, rfl⟩, ha⟩
  · show (Tts.due w'.log).reply op a = ((Tts.due w.log).call op).reply op a
    rw [hm.quieter.due]
    rfl
  · have hquiet : Disturbed w'.log ↔ Disturbed w.log := by
      rw [hm.quieter.disturbed]
      refine ⟨?_, disturbed_cons⟩
      rintro ⟨m, hmem, op', hact⟩
      rcases List.mem_cons.1 hmem with rfl | hmem
      · cases hact
      · exact ⟨m, hmem, op', hact⟩
    constructor
    · rintro ⟨m, hmem, op', hact⟩
      rcases List.mem_cons.1 hmem with rfl | hmem
      · cases hact
        exact .inl rfl
      · exact .inr (hquiet.1 ⟨m, hmem, op', hact⟩)
    · rintro (rfl | hd)
      · exact ⟨_, List.mem_cons_self, op, rfl⟩
      · exact disturbed_cons (hquiet.2 hd)
  · show (if op = op' then some a else Tts.answered op' w'.log) = if op = op' then some a else Tts.answered op' w.log
    rw [hm.quieter.answered]
    rfl

/-! ## Stretches that leave the call and what is due -/

/-- **What a stretch leaves** that writes nothing and lets go of nothing. -/
structure Passed (w : TWorld digest) {α : Type} (r : Except Exc α) (w' : TWorld digest) : Prop extends Mid w' where
  own : w'.st.toSlot = w.st.toSlot
  due : due w'.log = due w.log
  disturbed : Disturbed w.log → Disturbed w'.log
  interrupt : r = .error .interrupt → Disturbed w'.log

theorem Passed.refl {α : Type} {r : Except Exc α} (h : Mid w) (hr : r ≠ .error .interrupt) : Passed w r w :=
  ⟨h, rfl, rfl, id, fun hi => absurd hi hr⟩

/-- A stretch goes on where the one before it did not fail. -/
theorem Passed.trans {α β : Type} {r : Except Exc α} {r' : Except Exc β} (h : Passed w r w₁)
    (h' : Passed w₁ r' w₂) : Passed w r' w₂ :=
  ⟨h'.toMid, h'.own.trans h.own, h'.due.trans h.due, fun hd => h'.disturbed (h.disturbed hd), h'.interrupt⟩

theorem Passed.result {α β : Type} {r : Except Exc α} {r' : Except Exc β} (h : Passed w r w')
    (hr : r' = .error .interrupt → r = .error .interrupt) : Passed w r' w' :=
  ⟨h.toMid, h.own, h.due, h.disturbed, fun hi => h.interrupt (hr hi)⟩

/-- A callback that obtains nothing and lets go of nothing. -/
def Op.idle : Op → Bool
  | .sample | .state | .apply _ _ | .start _ _ | .poll _ | .gap => true
  | _ => false

theorem Asked.passed {α : Type} {r : Except Exc α} (h : Asked b i op w a w') (hop : op.idle = true)
    (hr : r = .error .interrupt → a = .raised true) : Passed w r w' := by
  refine ⟨h.toMid, h.own, ?_, fun hd => h.disturbed.2 (.inr hd), fun hi => h.disturbed.2 (.inl (hr hi))⟩
  rw [h.due]
  cases op <;> first | rfl | cases hop

/-- What is made of an answer. -/
inductive Came : Except Exc (Answer digest) → Answer digest → Prop where
  | ok {a : Answer digest} (h : a.raises = false) (hg : ∀ code, a ≠ .gatewayError code) : Came (.ok a) a
  | interrupt : Came (.error .interrupt) (.raised true)
  | exception {a : Answer digest} (h : a = .raised false ∨ ∃ code, a = .gatewayError code) :
    Came (.error .exception) a

/-- A callback, what it raises raised. -/
theorem holds_asked (h : Mid w) (op : Op) (ho : ¬ Disturbed w.log → Obliged op (due w.log)) :
    Holds (outputContract digest b) ctx i (ask op) (fun r w' => ∃ a, Asked b i op w a w' ∧ Came r a) w := by
  unfold ask
  rw [holds_bind]
  refine (holds_call h op ho).mono ?_
  rintro r w' ⟨a, rfl, hasked⟩
  cases a with
  | raised interrupt =>
    cases interrupt with
    | true => exact ⟨_, hasked, .interrupt⟩
    | false => exact ⟨_, hasked, .exception (.inl rfl)⟩
  | gatewayError code => exact ⟨_, hasked, .exception (.inr ⟨code, rfl⟩)⟩
  | none => exact ⟨_, hasked, .ok rfl (by simp)⟩
  | snapshot s => exact ⟨_, hasked, .ok rfl (by simp)⟩
  | status s => exact ⟨_, hasked, .ok rfl (by simp)⟩
  | result t => exact ⟨_, hasked, .ok rfl (by simp)⟩
  | handle n complete => exact ⟨_, hasked, .ok rfl (by simp)⟩
  | playback s => exact ⟨_, hasked, .ok rfl (by simp)⟩
  | true => exact ⟨_, hasked, .ok rfl (by simp)⟩
  | object => exact ⟨_, hasked, .ok rfl (by simp)⟩

/-- **What an idle callback leaves.** -/
structure Idled (op : Op) (w : TWorld digest) (r : Except Exc (Answer digest)) (w' : TWorld digest) : Prop
    extends Passed w r w' where
  others : ∀ op', op ≠ op' → answered op' w'.log = answered op' w.log
  fresh : ∃ k l, w'.log = k :: l ∧ k.st = w'.st
  value : ∀ a, r = .ok a → answered op w'.log = some a
  raised : ∀ e, r = .error e → e = .interrupt ∨ e = .exception

theorem holds_idle (h : Mid w) (op : Op) (hop : op.idle = true) :
    Holds (outputContract digest b) ctx i (ask op) (Idled op w) w := by
  have hfree : Obliged op (due w.log) := by
    cases op with
    | gatewayCancel => cases hop
    | restore n => cases hop
    | cancel n => cases hop
    | _ => trivial
  refine (holds_asked h op fun _ => hfree).mono ?_
  rintro r w' ⟨a, hasked, hcame⟩
  have hothers : ∀ op', op ≠ op' → answered op' w'.log = answered op' w.log := by
    intro op' hne
    rw [hasked.answered op', if_neg hne]
  obtain ⟨l, hl⟩ := hasked.fresh
  cases hcame with
  | ok _ _ =>
    refine ⟨hasked.passed hop fun hr => (by cases hr), hothers, ⟨_, l, hl, rfl⟩, fun a' ha => ?_, fun e he => (by cases he)⟩
    cases ha
    rw [hasked.answered op, if_pos rfl]
  | interrupt =>
    exact ⟨hasked.passed hop fun _ => rfl, hothers, ⟨_, l, hl, rfl⟩, fun a' ha => (by cases ha),
      fun e he => .inl (by cases he; rfl)⟩
  | exception _ =>
    exact ⟨hasked.passed hop fun hr => (by cases hr), hothers, ⟨_, l, hl, rfl⟩, fun a' ha => (by cases ha),
      fun e he => .inr (by cases he; rfl)⟩

end Tts

end Arhugula
