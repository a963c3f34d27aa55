import Arhugula.Reentrant.Alone
import Arhugula.Reentrant.Keeps
import Arhugula.Spec.Continuation

/-!
# What a run of the continuation did

What a run did with its ticket is read off its callbacks (`trail`); whether a ticket was left in between is read off all
of them, and off what the handoff said then (`standing`). A ticket that was left is named on disk (`Backed`), so that the
next run stops.

`At` is what a run knows between its callbacks; the lemmas here say what each callback makes of it.
-/

namespace Arhugula

namespace Continuation

open Strings Lit Backlog Reentrant

/-- A world of the continuation. -/
abbrev CWorld := World State Op Answer Exc Method Record

/-- A log entry of the continuation. -/
abbrev CEntry := Entry State Op Answer Exc Method Record

/-- The answer is a raise. -/
def Answer.isRaised : Answer → Bool
  | .raised _ => true
  | _ => false

/-! ## What the callbacks say -/

/-- What is done for a ticket. -/
inductive Mark where
  | started (ticket : Text)
  | claimed (ticket : Text)
  | worked
  | passed
  | committed (ticket commit : Text)
  | done (ticket : Text)
  deriving DecidableEq

/-- What a callback did. -/
def mark : Op → Answer → Option Mark
  | _, .raised _ => none
  | .start t, _ => some (.started t)
  | .assertClaim t, _ => some (.claimed t)
  | .worker _, .receipt _ => some .worked
  | .verify, .verdict true _ => some .passed
  | .commit t _, .text c => some (.committed t c)
  | .done t, _ => some (.done t)
  | _, _ => none

/-- **What was done since the run began**, the last first. -/
def trail : List CEntry → List Mark
  | [] => []
  | e :: older =>
    match e.act with
    | .invoke _ => []
    | .reply op a => (mark op a).toList ++ trail older
    | _ => trail older

/-- The run that was called last, if it is one. -/
def running : List CEntry → Option Settings
  | [] => none
  | e :: older =>
    match e.act with
    | .invoke (.run x) => some x
    | .invoke _ => none
    | _ => running older

/-- What was left of a ticket: it is under way, or it was left in between. -/
structure Standing where
  underway : Bool
  unresolved : Bool
  deriving DecidableEq

namespace Standing

/-- Nothing was left. -/
def clear : Standing := ⟨false, false⟩

/-- Another call begins. -/
def left (s : Standing) : Standing := ⟨false, s.unresolved || s.underway⟩

/-- A handoff was written that says this. -/
def wrote (s : Standing) (r : Option Record) : Standing :=
  if r.all fun r => r.stopReason = some interrupted then s else { s with underway := false }

end Standing

/-- **What was left of a ticket.** It is under way since it was claimed. A run that ends or is killed then has left it when
the next call begins, unless the handoff gives a reason; one that has begun to commit leaves it, whatever the handoff
gives. It is no longer left when it is closed, or when an operator has resolved it. -/
def standing : List CEntry → Standing
  | [] => .clear
  | e :: older =>
    match e.act with
    | .call (.start _) => { standing older with underway := true }
    | .call (.commit _ _) => { standing older with unresolved := true }
    | .call .sync => if running older = none then .clear else (standing older).wrote e.st.disk
    | .reply (.done _) a => if a.isRaised then standing older else .clear
    | .invoke _ => (standing older).left
    | _ => standing older

/-- The handoff stops a run. -/
def isBarred (r : Record) : Bool := r.recoveryRequired || r.workerStop || r.stopReason = some interrupted

/-- **What was left is on disk.** -/
structure Backed (s : Standing) (disk : Option Record) : Prop where
  underway : s.underway = true → ∃ r, disk = some r ∧ r.stopReason = some interrupted
  unresolved : s.unresolved = true → ∃ r, disk = some r ∧ isBarred r = true

theorem Backed.clear (disk : Option Record) : Backed .clear disk := ⟨fun h => (by cases h), fun h => by cases h⟩

theorem Backed.left {s : Standing} {disk : Option Record} (hb : Backed s disk) : Backed s.left disk := by
  refine ⟨fun h => (by cases h), fun h => ?_⟩
  rcases Bool.or_eq_true_iff.1 h with h | h
  · exact hb.unresolved h
  · obtain ⟨r, hr, hstop⟩ := hb.underway h
    refine ⟨r, hr, ?_⟩
    unfold isBarred
    rw [hstop]
    simp

/-! ## What is owed -/

/-- What is done for a ticket before it is committed, the last first. -/
def ready (t : Text) : List Mark := [.claimed t, .passed, .claimed t, .worked, .claimed t, .started t]

/-- What is done for a ticket before it is closed. -/
def published (t c : Text) : List Mark := .claimed t :: .committed t c :: ready t

/-- The line of a ticket that was committed. -/
def line (t c summary : Text) : Text := t ++ ": ".toList ++ c ++ ": ".toList ++ summary

/-- A ticket was closed. -/
def Mark.isDone : Mark → Bool
  | .done _ => true
  | _ => false

/-- What is owed of an entry. -/
structure Safe (e : CEntry) (older : List CEntry) : Prop where
  starts : ∀ t, e.act = .call (.start t) → standing older = .clear
  works : ∀ context, e.act = .call (.worker context) → (standing older).unresolved = false
  commits : ∀ t files, e.act = .call (.commit t files) → ∃ rest, trail older = ready t ++ rest
  closes : ∀ t, e.act = .call (.done t) → ∃ c rest x summary r, trail older = published t c ++ rest ∧
    running older = some x ∧ (rest.filter Mark.isDone).length < x.limit ∧
    e.st.disk = some r ∧ line t c summary ∈ r.completedWork

/-- The invariant. -/
structure Inv (w : CWorld) : Prop where
  safe : Throughout Safe w.log
  backed : Backed (standing w.log) w.st.disk

/-- **What a run knows between its callbacks.** -/
structure At (w : CWorld) (x : Settings) (T : List Mark) (s : Standing) : Prop where
  safe : Throughout Safe w.log
  trail : trail w.log = T
  running : running w.log = some x
  standing : standing w.log = s
  backed : Backed s w.st.disk

variable {e : Env} {w w' : CWorld} {x : Settings} {T T' : List Mark} {s s' : Standing} {i : ℕ} {op : Op} {a : Answer}
  {α β : Type} {t : Text}

theorem At.inv (h : At w x T s) : Inv w := ⟨h.safe, h.standing.symm ▸ h.backed⟩

/-- The contract. -/
def contract (e : Env) : Contract (machine e) := .alone (machine e) Inv

/-- What is on disk, and what was logged, is what `At` is about. -/
theorem At.put (st : State) (h : At w x T s) (hdisk : st.disk = w.st.disk) : At (w.put st) x T s :=
  ⟨h.safe, h.trail, h.running, h.standing, by rw [World.put_st, hdisk]; exact h.backed⟩

/-! ## Callbacks -/

/-- A callback that nothing is owed of, and that leaves what stands. -/
def Quiet : Op → Prop
  | .clock | .next | .export | .inspect _ _ | .show _ | .comment _ _ | .replace _ => True
  | _ => False

theorem safe_other {z : CEntry} {older : List CEntry} (h : ∀ op, z.act ≠ .call op) : Safe z older :=
  ⟨fun _ ho => absurd ho (h _), fun _ ho => absurd ho (h _), fun _ _ ho => absurd ho (h _), fun _ ho => absurd ho (h _)⟩

/-- What is owed of a callback that neither commits nor closes. -/
theorem safe_call {older : List CEntry} {st : State} (hcommit : ∀ t files, op ≠ .commit t files) (hdone : ∀ t, op ≠ .done t)
    (hstart : ∀ t, op = .start t → standing older = .clear)
    (hwork : ∀ context, op = .worker context → (standing older).unresolved = false) : Safe ⟨i, .call op, st⟩ older := by
  refine ⟨fun t ho => ?_, fun context ho => ?_, fun t files ho => ?_, fun t ho => ?_⟩
  · cases ho
    exact hstart t rfl
  · cases ho
    exact hwork context rfl
  · cases ho
    exact absurd rfl (hcommit t files)
  · cases ho
    exact absurd rfl (hdone t)

/-- **What a callback leaves**, of which nothing but this is owed. -/
theorem At.call (h : At w x T s) (hsafe : Safe ⟨i, .call op, w.st⟩ w.log)
    (hs : Continuation.standing (⟨i, .call op, w.st⟩ :: w.log) = s') (hb : Backed s' w.st.disk) :
    At (w.push i (.call op)) x T s' :=
  ⟨⟨hsafe, h.safe⟩, h.trail, h.running, hs, hb⟩

theorem At.reply (op : Op) (h : At w x T s) (hs : Continuation.standing (⟨i, .reply op a, w.st⟩ :: w.log) = s')
    (hb : Backed s' w.st.disk) : At (w.push i (.reply op a)) x ((mark op a).toList ++ T) s' := by
  refine ⟨⟨safe_other fun op ho => (by cases ho), h.safe⟩, ?_, h.running, hs, hb⟩
  rw [← h.trail]
  rfl

/-- The answer of a callback that is no `done` leaves what stands. -/
theorem standing_reply {older : List CEntry} {st : State} (hdone : ∀ t, op ≠ .done t) :
    standing (⟨i, .reply op a, st⟩ :: older) = standing older := by
  cases op with
  | done t => exact absurd rfl (hdone t)
  | _ => rfl

theorem At.answer (op : Op) (h : At w x T s) (hdone : ∀ t, op ≠ .done t) :
    At (w.push i (.reply op a)) x ((mark op a).toList ++ T) s :=
  h.reply op ((standing_reply hdone).trans h.standing) h.backed

theorem Quiet.standing (hq : Quiet op) (older : List CEntry) (st : State) :
    standing (⟨i, .call op, st⟩ :: older) = Continuation.standing older := by
  cases op <;> first | rfl | cases hq

theorem Quiet.mark (hq : Quiet op) (a : Answer) : mark op a = none := by
  cases op <;> first | (cases a <;> rfl) | cases hq

theorem Quiet.no_done (hq : Quiet op) (t : Text) : op ≠ .done t := by
  rintro rfl
  cases hq

theorem Quiet.safe (hq : Quiet op) (older : List CEntry) (st : State) : Safe ⟨i, .call op, st⟩ older := by
  refine safe_call (fun t files ho => ?_) hq.no_done (fun t ho => ?_) fun context ho => ?_ <;>
  · subst ho
    cases hq

/-- What a run knows, and knows of its state. -/
def Known (x : Settings) (T : List Mark) (s : Standing) (D : State → Prop) (w : CWorld) : Prop := At w x T s ∧ D w.st

variable {D : State → Prop} {r : Record}

/-- A quiet callback leaves all that a run knows. -/
theorem At.quiet (h : At w x T s) (hq : Quiet op) :
    At (w.push i (.call op)) x T s ∧ ∀ a, At (w.answered i op a) x T s := by
  have hcall := h.call (i := i) (hq.safe w.log w.st) ((hq.standing w.log w.st).trans h.standing) h.backed
  refine ⟨hcall, fun a => ?_⟩
  have hreply := hcall.answer op (i := i) (a := a) hq.no_done
  rwa [hq.mark] at hreply

theorem survives_quiet (hq : Quiet op) : Survives (contract e) [] i (Known x T s D) op := by
  rintro w ⟨h, hD⟩
  refine ⟨(h.quiet hq).1.inv, fun w' _ _ hrel a _ => ?_⟩
  rw [hrel (List.cons_ne_nil _ _)]
  exact ⟨(h.quiet hq).2 a, hD⟩

theorem keeps_quiet (op : Op) (hq : Quiet op) : Keeps (contract e) [] i (Known x T s D) (ask op) fun _ => True := by
  unfold ask
  refine (keeps_ask (survives_quiet hq)).bind fun a _ => ?_
  cases a <;> first | exact keeps_throw | exact keeps_pure trivial

theorem keeps_perform (op : Op) (hq : Quiet op) : Keeps (contract e) [] i (Known x T s D) (perform op) fun _ => True :=
  (keeps_quiet op hq).bind fun _ _ => keeps_pure trivial

theorem keeps_askText (op : Op) (hq : Quiet op) : Keeps (contract e) [] i (Known x T s D) (askText op) fun _ => True := by
  refine (keeps_quiet op hq).bind fun a _ => ?_
  cases a <;> first | exact keeps_pure trivial | exact keeps_throw

theorem keeps_askTime : Keeps (contract e) [] i (Known x T s D) askTime fun _ => True := by
  refine (keeps_quiet .clock trivial).bind fun a _ => ?_
  cases a <;> first | exact keeps_pure trivial | exact keeps_throw

theorem keeps_askCheckout {head : Option Text} {allowed : List Text} :
    Keeps (contract e) [] i (Known x T s D) (askCheckout head allowed) fun _ => True := by
  refine (keeps_quiet (.inspect head allowed) trivial).bind fun a _ => ?_
  cases a <;> first | exact keeps_pure trivial | exact keeps_throw

theorem keeps_select {output : Text} : Keeps (contract e) [] i (Known x T s D) (select output) fun _ => True := by
  unfold select askExport
  refine Keeps.bind (P := fun _ => True) ?_ fun v _ => ?_
  · refine (keeps_quiet .export trivial).bind fun a _ => ?_
    cases a <;> first | exact keeps_pure trivial | exact keeps_throw
  · obtain ⟨version, data⟩ := v
    dsimp only
    cases selectTicket version data output with
    | ok selected => exact keeps_pure trivial
    | error e => exact keeps_throw

/-- What changes the record only. -/
theorem keeps_amend {f : Record → Record} (hD : ∀ st : State, D st → D { st with record := f st.record }) :
    Keeps (contract e) [] i (Known x T s D) (amend f) fun _ => True :=
  keeps_write fun w h => ⟨h.1.put _ rfl, hD w.st h.2⟩

@[simp] theorem holds_amend {f : Record → Record} {Q : Except Exc Unit → CWorld → Prop} :
    Holds (contract e) [] i (amend f) Q w ↔ Q (.ok ()) (w.put { w.st with record := f w.st.record }) := Iff.rfl

/-- **A callback and its answer**, raised or not. -/
theorem holds_ask_op {Q : Except Exc Answer → CWorld → Prop} (hcall : Inv (w.push i (.call op)))
    (hraised : ∀ x, Q (.error x) (w.answered i op (.raised x)))
    (hok : ∀ a, a.isRaised = false → Q (.ok a) (w.answered i op a)) : Holds (contract e) [] i (ask op) Q w := by
  unfold ask
  rw [holds_bind]
  refine alone_ask hcall fun a => ?_
  dsimp only
  cases a <;> first | exact hraised _ | exact hok _ rfl

/-! ## What stops a run -/

/-- The record stops a run, whatever its reason. -/
def isFlagged (r : Record) : Bool := r.recoveryRequired || r.workerStop

theorem isBarred_of_flagged (h : isFlagged r = true) : isBarred r = true := by
  unfold isBarred
  rw [← isFlagged, h, Bool.true_or]

/-- **What a run leaves that is stopped**: the record says what is left. -/
def Stopping (x : Settings) (w : CWorld) : Prop := ∃ T s, At w x T s ∧ (s.unresolved = true → isFlagged w.st.record = true)

theorem At.stopping (h : At w x T s) (hs : s.unresolved = false) : Stopping x w :=
  ⟨T, s, h, fun hu => by rw [hs] at hu; cases hu⟩

/-- What is written leaves what stands, or less. -/
theorem Backed.wrote (s : Standing) (hu : s.unresolved = true → isBarred r = true) : Backed (s.wrote (some r)) (some r) := by
  unfold Standing.wrote
  by_cases hr : r.stopReason = some interrupted
  · have hall : (some r).all (fun r => r.stopReason = some interrupted) = true := by simp [hr]
    rw [if_pos hall]
    exact ⟨fun _ => ⟨r, rfl, hr⟩, fun h => ⟨r, rfl, hu h⟩⟩
  · have hall : ¬ (some r).all (fun r => r.stopReason = some interrupted) = true := by simp [hr]
    rw [if_neg hall]
    exact ⟨fun h => (by cases h), fun h => ⟨r, rfl, hu h⟩⟩

/-- **A handoff is written**: what stands is what it says, unless it was not written. -/
theorem persist_holds {Q : Except Exc Unit → CWorld → Prop} (h : At w x T s)
    (hu : s.unresolved = true → isBarred w.st.record = true)
    (hok : ∀ w', At w' x T (s.wrote (some w.st.record)) → w'.st = ⟨some w.st.record, w.st.record⟩ → Q (.ok ()) w')
    (herr : ∀ x' w' s', At w' x T s' → s'.unresolved = s.unresolved → w'.st.record = w.st.record → Q (.error x') w') :
    Holds (contract e) [] i persist Q w := by
  unfold persist writeHandoff
  rw [holds_bind, holds_read]
  dsimp only
  cases hf : w.st.record.fault with
  | some text => exact herr _ w s h rfl rfl
  | none =>
    have hquiet : Quiet (.replace w.st.record) := trivial
    refine (keeps_perform (D := fun st => st = w.st) _ hquiet).seq ⟨h, rfl⟩ (fun _ w₁ h₁ _ => ?_) fun x' w₁ h₁ => ?_
    · obtain ⟨hat, hst⟩ := h₁
      have hsync : running w₁.log ≠ none := by
        rw [hat.running]
        exact Option.some_ne_none x
      have hbacked := Backed.wrote (r := w.st.record) s hu
      have hafter : ∀ a, At (((w₁.put { w₁.st with disk := some w.st.record }).push i (.call .sync)).push i (.reply .sync a))
          x T (s.wrote (some w.st.record)) ∧
          At ((w₁.put { w₁.st with disk := some w.st.record }).push i (.call .sync)) x T (s.wrote (some w.st.record)) := by
        intro a
        have hcall : At ((w₁.put { w₁.st with disk := some w.st.record }).push i (.call .sync)) x T
            (s.wrote (some w.st.record)) := by
          refine ⟨⟨safe_call (by simp) (by simp) (by simp) (by simp), hat.safe⟩, hat.trail, hat.running, ?_, hbacked⟩
          show (if running w₁.log = none then Standing.clear else (standing w₁.log).wrote (some w.st.record)) = _
          rw [if_neg hsync, hat.standing]
        have hreply := hcall.answer .sync (i := i) (a := a) (by simp)
        have hmark : mark .sync a = none := by cases a <;> rfl
        rw [hmark] at hreply
        exact ⟨hreply, hcall⟩
      rw [holds_bind, holds_write]
      refine holds_bind.2 (holds_ask_op (hafter .none).2.inv (fun x' => ?_) fun a _ => ?_)
      · exact herr x' _ _ (hafter _).1 (by unfold Standing.wrote; split <;> rfl) (by simp [hst])
      · exact hok _ (hafter a).1 (by simp [hst])
    · exact herr x' w₁ s h₁.1 rfl (by rw [h₁.2])

/-- A handoff that is interrupted leaves what stands. -/
theorem persist_interrupted {Q : Except Exc Unit → CWorld → Prop} (h : At w x T s)
    (hstop : w.st.record.stopReason = some interrupted) (hu : s.unresolved = true → isBarred w.st.record = true)
    (hok : ∀ w', At w' x T s → w'.st = ⟨some w.st.record, w.st.record⟩ → Q (.ok ()) w')
    (herr : ∀ x' w' s', At w' x T s' → s'.unresolved = s.unresolved → w'.st.record = w.st.record → Q (.error x') w') :
    Holds (contract e) [] i persist Q w := by
  have hsame : s.wrote (some w.st.record) = s := by
    unfold Standing.wrote
    rw [if_pos (by simp [hstop])]
  exact persist_holds h hu (fun w' hat => hok w' (hsame ▸ hat)) herr

/-- Where nothing was left, no handoff leaves anything. -/
theorem persist_clear {Q : Except Exc Unit → CWorld → Prop} (h : At w x T .clear)
    (hok : ∀ w', At w' x T .clear → w'.st = ⟨some w.st.record, w.st.record⟩ → Q (.ok ()) w')
    (herr : ∀ x' w', Stopping x w' → Q (.error x') w') : Holds (contract e) [] i persist Q w := by
  have hsame : Standing.wrote .clear (some w.st.record) = .clear := by
    unfold Standing.wrote
    split <;> rfl
  exact persist_holds h (fun hu => by cases hu) (fun w' hat => hok w' (hsame ▸ hat))
    fun x' w' s' hat hs' _ => herr x' w' (hat.stopping hs')

end Continuation

end Arhugula
