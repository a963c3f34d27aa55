import Arhugula.Proof.ConversationSteps

/-!
# The operations of a conversation

What each operation leaves under `_run` (`Done`), what `_run` makes of it (`Ran`), and that every
call keeps the contract (`desk_kept`).
-/

namespace Arhugula

namespace Conversation

open Reentrant Session

variable {latch : Bool} {w w' w₁ w₂ : DWorld} {d d' : Desk} {ctx : List (ℕ × Op)} {i : ℕ} {α : Type}
  {r : Except Exc α}

/-! ## An operation under way -/

theorem Rest.moves {log log' : List DEntry} (h : Rest latch log d) (hm : Moves d d')
    (hd : Disturbed log → Disturbed log') : Rest latch log' d' := by
  have hfault : latch = true ∧ d.owner.state = .faulted → latch = true ∧ d'.owner.state = .faulted :=
    fun hf => ⟨hf.1, hm.faulted hf.2⟩
  refine ⟨hm.gate.trans h.gate, fun ha => ?_, fun hs => ?_, fun hs => ?_, fun hs => ?_, fun hs => ?_,
    fun hs => ?_, fun hk => ?_⟩
  · rw [hm.lease]
    refine h.active ?_
    unfold Desk.active at ha ⊢
    rw [hm.phase] at ha
    exact ha
  · rw [hm.job, hm.unknownJob]
    rw [hm.phase] at hs
    exact h.still hs
  · rw [hm.request]
    rw [hm.phase] at hs
    exact h.ready hs
  · rw [hm.lease, hm.request, hm.snapshot, hm.sessionId, hm.history]
    rw [hm.phase] at hs
    exact h.ended hs
  · rw [hm.phase] at hs
    exact hm.faulted (h.faulted hs)
  · rw [hm.phase] at hs
    obtain ⟨hi, hrest⟩ := h.stopping hs
    exact ⟨hm.intent hi, hrest.imp hd hfault⟩
  · rw [hm.phase]
    rw [hm.unknownJob] at hk
    exact (h.unknown hk).imp id (Or.imp hd hfault)

/-- **An operation that could end here.** -/
structure Begun (latch : Bool) (w : DWorld) : Prop extends Mid latch w where
  rest : Rest latch w.log w.st

theorem Begun.passed (h : Begun latch w) (hp : Passed latch i w r w') : Begun latch w' :=
  ⟨hp.mid, h.rest.moves hp.moves hp.disturbed⟩

/-- What the absorption of a fault rests on: a lease is kept; without one nothing happens; and no
`FaultedError` escapes. -/
structure Absorbs (w : DWorld) (r : Except Exc α) (w' : DWorld) : Prop where
  faulted : w.st.owner.state = .faulted → w'.st.owner.state = .faulted
  lease : w.st.lease ≠ none → w'.st.lease ≠ none
  idle : w.st.lease = none → w'.st = w.st ∧ r ≠ .error .interrupt ∧ ∀ c, r ≠ .error (.stop c)
  escapes : r ≠ .error (.session .faulted)

/-- **What an operation leaves.** Where it does not stop the conversation, it could end here. -/
structure Done (latch : Bool) (absorbs : Bool) (i : ℕ) (w : DWorld) (r : Except Exc α) (w' : DWorld) : Prop
    extends Core latch w' where
  linked : Linked w'.log w'.st
  busy : w'.st.busy = true
  gate : w'.st.gate = false
  broken : Broken w'.log i ↔ r = .error .interrupt ∨ Broken w.log i
  rest : (∀ c, r ≠ .error (.stop c)) → Rest latch w'.log w'.st
  absorbed : absorbs = true → Absorbs w r w'

/-- An operation that does nothing. -/
theorem Begun.skip (h : Begun latch w) {absorbs : Bool} (hi : r ≠ .error .interrupt)
    (hs : ∀ c, r ≠ .error (.stop c)) (he : r ≠ .error (.session .faulted)) : Done latch absorbs i w r w :=
  ⟨h.toCore, h.linked, h.busy, h.rest.gate, ⟨.inr, fun hb => hb.resolve_left hi⟩, fun _ => h.rest,
    fun _ => ⟨id, id, fun _ => ⟨rfl, hi, hs⟩, he⟩⟩

/-- **An operation from `w` that has come to `w₁`**, and could end here. -/
structure Came (latch : Bool) (absorbs : Bool) (i : ℕ) (w w₁ : DWorld) : Prop extends Begun latch w₁ where
  broken : Broken w₁.log i ↔ Broken w.log i
  absorbed : absorbs = true → (w.st.owner.state = .faulted → w₁.st.owner.state = .faulted) ∧
    w.st.lease ≠ none ∧ w₁.st.lease ≠ none

section Came

variable {absorbs : Bool} (h : Came latch absorbs i w w₁)
include h

theorem Came.linked : Linked w₁.log w₁.st := h.level.linked

theorem Came.done (hi : r ≠ .error .interrupt) (he : absorbs = true → r ≠ .error (.session .faulted)) :
    Done latch absorbs i w r w₁ := by
  refine ⟨h.toCore, h.linked, h.busy, h.rest.gate, ?_, fun _ => h.rest, fun ha => ?_⟩
  · rw [h.broken]
    exact ⟨.inr, fun hb => hb.resolve_left hi⟩
  · obtain ⟨hfault, hl, hl₁⟩ := h.absorbed ha
    exact ⟨hfault, fun _ => hl₁, fun hn => absurd hn hl, he ha⟩

theorem Came.fail (hp : Passed latch i w₁ r w₂) (he : r ≠ .error (.session .faulted)) :
    Done latch absorbs i w r w₂ := by
  have h₂ := h.toBegun.passed hp
  refine ⟨h₂.toCore, h₂.linked, h₂.busy, h₂.rest.gate, ?_, fun _ => h₂.rest, fun ha => ?_⟩
  · rw [hp.broken, h.broken]
  · obtain ⟨hfault, hl, hl₁⟩ := h.absorbed ha
    exact ⟨fun hf => hp.moves.faulted (hfault hf), fun _ => hp.moves.lease ▸ hl₁, fun hn => absurd hn hl, he⟩

theorem Came.passed {β : Type} {x : β} (hp : Passed latch i w₁ (Except.ok (ε := Exc) x) w₂) :
    Came latch absorbs i w w₂ := by
  refine ⟨h.toBegun.passed hp, ?_, fun ha => ?_⟩
  · rw [hp.broken, h.broken]
    simp
  · obtain ⟨hfault, hl, hl₁⟩ := h.absorbed ha
    exact ⟨fun hf => hp.moves.faulted (hfault hf), hl, hp.moves.lease ▸ hl₁⟩

/-- A change of the state after which the operation could end as well. -/
theorem Came.put {s : Desk} (hc : Core latch (w₁.put s)) (hh : s.history = w₁.st.history) (hb : s.busy = true)
    (hr : Rest latch w₁.log s) (hf : w₁.st.owner.state = .faulted → s.owner.state = .faulted)
    (hl : w₁.st.lease ≠ none → s.lease ≠ none) : Came latch absorbs i w (w₁.put s) := by
  refine ⟨⟨⟨hc, ?_, hb⟩, hr⟩, h.broken, fun ha => ?_⟩
  · rw [World.put_st, World.put_log, hh]
    exact h.level
  · obtain ⟨hfault, hlease, hl₁⟩ := h.absorbed ha
    exact ⟨fun hf' => hf (hfault hf'), hlease, hl hl₁⟩

/-- **A check in an operation.** -/
theorem Came.check : Holds (deskContract latch) ctx i check (fun r w₂ =>
    (r = .ok () → Came latch absorbs i w w₂ ∧ Moves w₁.st w₂.st) ∧
      ∀ e, r = .error e → ((∃ c, e = .stop c) ∨ e = .interrupt) ∧
        ∀ {β : Type}, Done latch absorbs i w (.error e : Except Exc β) w₂) w₁ := by
  refine (holds_check h.toCore h.linked h.busy).mono fun r w₂ ⟨hp, hs, _⟩ => ⟨?_, ?_⟩
  · rintro rfl
    exact ⟨h.passed hp, hp.moves⟩
  · rintro e rfl
    refine ⟨hs e rfl, fun {β} => h.fail (hp.result (by simp)) ?_⟩
    rcases hs e rfl with ⟨c, rfl⟩ | rfl <;> simp

end Came

theorem Begun.came (h : Begun latch w) {absorbs : Bool} (ha : absorbs = true → w.st.lease ≠ none) :
    Came latch absorbs i w w :=
  ⟨h, Iff.rfl, fun hb => ⟨id, ha hb, ha hb⟩⟩

/-- An active conversation has a lease. -/
theorem Begun.leased (h : Begun latch w) (ha : w.st.active = true) : w.st.lease ≠ none := h.rest.active ha

/-! ## `_start` -/

/-- What a processing conversation could end with. -/
theorem Rest.processing {log : List DEntry} (hp : d.phase = .processing) (hg : d.gate = false)
    (hl : d.lease ≠ none) (hu : d.unknownJob = true → Disturbed log) : Rest latch log d := by
  have hne : ∀ phase, phase ≠ .processing → d.phase ≠ phase := fun phase hn => hp ▸ hn.symm
  refine ⟨hg, fun _ => hl, fun hs => ?_, fun hs => ?_, fun hs => ?_, fun hs => ?_, fun hs => ?_,
    fun hk => .inr (.inl (hu hk))⟩
  · rcases hs with hs | hs | hs <;> exact absurd hs (hne _ (by simp))
  · exact absurd hs (hne _ (by simp))
  · rcases hs with hs | hs <;> exact absurd hs (hne _ (by simp))
  · exact absurd hs (hne _ (by simp))
  · exact absurd hs (hne _ (by simp))

/-- What `_start` raises where its body raised `e`. -/
def unavailable : Exc → Exc
  | .stop c => .stop c
  | .interrupt => .interrupt
  | _ => .stop .unavailable

/-- A turn that starts, from an operation that had come to `w₁`. -/
structure Starts (w₁ : DWorld) (s : Desk) : Prop where
  history : s.history = w₁.st.history
  busy : s.busy = true
  lease : s.lease ≠ none
  gate : s.gate = false
  job : s.job = none
  unknownJob : s.unknownJob = false
  faulted : w₁.st.owner.state = .faulted → s.owner.state = .faulted

/-- **`_start`.** -/
theorem holds_start {absorbs : Bool} (h : Came latch absorbs i w w₁) {s : Desk} (hc : Core latch (w₁.put s))
    (hs : Starts w₁ s) : Holds (deskContract latch) ctx i start (fun r w₂ =>
      (r = .ok () → Came latch absorbs i w w₂) ∧
        ∀ e, r = .error e → ∀ {β : Type}, Done latch absorbs i w (.error e : Except Exc β) w₂) (w₁.put s) := by
  have hnone : loose w₁.log = [] := by
    have hjobs : Jobs w₁.log s.job s.unknownJob := hc.jobs
    rw [hs.unknownJob] at hjobs
    exact hjobs.nil hs.job
  have hlevel : Level w₁.log s.history := hs.history ▸ h.level
  -- the factory is asked with `_unknown_job` set
  have hasking : Mid latch (w₁.put { s.tell .processing .processing with polls := 0, unknownJob := true }) :=
    ⟨hc.put hc.owning hc.bounds (.inr (.inr rfl)) fun hn => absurd hn hs.lease, hlevel, hs.busy⟩
  unfold start
  rw [holds_bind, holds_write]
  dsimp only
  rw [holds_catching]
  refine Holds.mono (Q := fun r w₂ => (r = .ok () → Came latch absorbs i w w₂) ∧ ∀ e, r = .error e →
    ∀ {β : Type}, Done latch absorbs i w (.error (unavailable e) : Except Exc β) w₂) ?_ fun r w₂ hr => ?_
  swap
  · cases r with
    | ok _ => exact ⟨fun _ => hr.1 rfl, fun e he => (by cases he)⟩
    | error e =>
      have hdone : ∀ {β : Type}, Done latch absorbs i w (.error (unavailable e) : Except Exc β) w₂ := hr.2 e rfl
      cases e with
      | stop c => exact ⟨fun hok => (by cases hok), fun e he => (by cases he; exact hdone)⟩
      | interrupt => exact ⟨fun hok => (by cases hok), fun e he => (by cases he; exact hdone)⟩
      | session x => exact ⟨fun hok => (by cases hok), fun e he => (by cases he; exact hdone)⟩
      | value => exact ⟨fun hok => (by cases hok), fun e he => (by cases he; exact hdone)⟩
      | exception => exact ⟨fun hok => (by cases hok), fun e he => (by cases he; exact hdone)⟩
  rw [holds_bind, holds_write]
  dsimp only
  rw [holds_bind]
  refine (holds_call hasking.toCore hasking.linked hasking.busy .jobs fun _ => rfl).mono ?_
  rintro r w₂ ⟨a, rfl, hasked⟩
  have hm := hasked.moves
  have hphase : w₂.st.phase = .processing := hm.phase
  have hgate : w₂.st.gate = false := hm.gate.trans hs.gate
  have hlease : w₂.st.lease ≠ none := by
    rw [hm.lease]
    exact hs.lease
  have habsorbed : absorbs = true → (w.st.owner.state = .faulted → w₂.st.owner.state = .faulted) ∧
      w.st.lease ≠ none ∧ w₂.st.lease ≠ none := fun ha =>
    ⟨fun hf => hm.faulted (hs.faulted ((h.absorbed ha).1 hf)), (h.absorbed ha).2.1, hlease⟩
  have hbroken : Broken w₂.log i ↔ a = .raised true ∨ Broken w.log i := by
    rw [hasked.broken, ← h.broken]
    rfl
  -- the factory gave no job: that is unknown, and all is stopped
  have hunknown : a ≠ .raised true → ∀ {β : Type},
      Done latch absorbs i w (.error (.stop .unavailable) : Except Exc β) w₂ := by
    intro ha β
    refine ⟨hasked.mid.toCore, hasked.mid.linked, hasked.mid.busy, hgate, ?_, fun hr => absurd rfl (hr _),
      fun hb => ?_⟩
    · rw [hbroken]
      exact ⟨fun hb => .inr (hb.resolve_left ha), fun hb => .inr (hb.resolve_left (by simp))⟩
    · obtain ⟨hfault, hl, hl₂⟩ := habsorbed hb
      exact ⟨hfault, fun _ => hl₂, fun hn => absurd hn hl, by simp⟩
  have hnojob : a ≠ .raised true → (Except.error Exc.exception = .ok () → Came latch absorbs i w w₂) ∧
      ∀ e, (Except.error Exc.exception : Except Exc Unit) = .error e →
        ∀ {β : Type}, Done latch absorbs i w (.error (unavailable e) : Except Exc β) w₂ := by
    refine fun ha => ⟨fun hok => (by cases hok), fun e he => ?_⟩
    cases he
    exact hunknown ha
  cases a with
  | raised interrupt =>
    cases interrupt with
    | false => exact hnojob (by simp)
    | true =>
      have hdisturbed : Disturbed w₂.log := ⟨i, hbroken.2 (.inl rfl)⟩
      refine ⟨fun hok => (by cases hok), fun e he => ?_⟩
      cases he
      intro β
      refine ⟨hasked.mid.toCore, hasked.mid.linked, hasked.mid.busy, hgate, ?_,
        fun _ => .processing hphase hgate hlease fun _ => hdisturbed, fun hb => ?_⟩
      · rw [hbroken]
        exact ⟨fun _ => .inl rfl, fun _ => .inl rfl⟩
      · obtain ⟨hfault, hl, hl₂⟩ := habsorbed hb
        exact ⟨hfault, fun _ => hl₂, fun hn => absurd hn hl, by simp [unavailable]⟩
  | none => exact hnojob (by simp)
  | snapshot x => exact hnojob (by simp)
  | response x => exact hnojob (by simp)
  | true => exact hnojob (by simp)
  | object => exact hnojob (by simp)
  | job j =>
    have hloose : loose w₂.log = [some j] := by
      rw [hasked.loose, World.put_log, hnone]
      rfl
    have hgot : Came latch absorbs i w (w₂.put { w₂.st with job := some j, unknownJob := false }) := by
      refine ⟨⟨⟨hasked.mid.toCore.put hasked.mid.owning hasked.mid.bounds (.inr (.inl ⟨j, hloose, rfl⟩))
        fun hn => absurd hn hlease, hasked.mid.level, hasked.mid.busy⟩,
        .processing hphase hgate hlease fun hu => (by cases hu)⟩, ?_, habsorbed⟩
      exact hbroken.trans ⟨fun hb => hb.resolve_left (by simp), .inr⟩
    dsimp only
    rw [holds_bind, holds_write]
    dsimp only
    rw [holds_bind]
    refine hgot.check.mono fun r w₃ ⟨hok, herror⟩ => ?_
    cases r with
    | error e =>
      obtain ⟨hkind, hdone⟩ := herror e rfl
      refine ⟨fun hr => (by cases hr), fun e' he => ?_⟩
      cases he
      rcases hkind with ⟨c, rfl⟩ | rfl
      · exact hdone
      · exact hdone
    | ok _ =>
      obtain ⟨h₃, -⟩ := hok rfl
      have hraised : ∀ {w₄ : DWorld}, Came latch absorbs i w w₄ →
          (Except.error Exc.exception = .ok () → Came latch absorbs i w w₄) ∧
            ∀ e, (Except.error Exc.exception : Except Exc Unit) = .error e →
              ∀ {β : Type}, Done latch absorbs i w (.error (unavailable e) : Except Exc β) w₄ := by
        refine fun h₄ => ⟨fun hr => (by cases hr), fun e he => ?_⟩
        cases he
        exact h₄.done (by simp [unavailable]) (by simp [unavailable])
      dsimp only
      rw [holds_bind, holds_read]
      dsimp only
      rw [holds_bind]
      cases hreq : w₃.st.request with
      | none => exact hraised h₃
      | some q =>
        show Holds (deskContract latch) ctx i (Prog.ask (.start j q) >>= _) _ w₃
        rw [holds_bind]
        refine (holds_call h₃.toCore h₃.linked h₃.busy (.start j q) fun ho => by cases ho).mono ?_
        rintro r w₄ ⟨a, rfl, hstarted⟩
        have hchecked : a ≠ .raised true → Holds (deskContract latch) ctx i check (fun r w₂ =>
            (r = .ok () → Came latch absorbs i w w₂) ∧ ∀ e, r = .error e →
              ∀ {β : Type}, Done latch absorbs i w (.error (unavailable e) : Except Exc β) w₂) w₄ := by
          intro ha
          have hp : Passed latch i w₃ (Except.ok (ε := Exc) ()) w₄ :=
            hstarted.passed ⟨fun he => (by cases he), fun ht => absurd ht ha⟩
          refine (h₃.passed hp).check.mono fun r w₅ ⟨hok', herror⟩ => ⟨fun hr => (hok' hr).1, fun e he => ?_⟩
          obtain ⟨hkind, hdone⟩ := herror e he
          rcases hkind with ⟨c, rfl⟩ | rfl
          · exact hdone
          · exact hdone
        cases a with
        | raised interrupt =>
          cases interrupt with
          | true =>
            refine ⟨fun hr => (by cases hr), fun e he => ?_⟩
            cases he
            exact h₃.fail (hstarted.passed (by simp [unavailable])) (by simp [unavailable])
          | false => exact hraised (h₃.passed (hstarted.passed (r := .ok ()) (by simp)))
        | none => exact hchecked (by simp)
        | snapshot x => exact hchecked (by simp)
        | job k => exact hchecked (by simp)
        | response x => exact hchecked (by simp)
        | true => exact hchecked (by simp)
        | object => exact hchecked (by simp)

/-! ## The operations -/

/-- The snapshot and the policy of a conversation. -/
theorem holds_bound : Holds (deskContract latch) ctx i bound (fun r w' => w = w' ∧
    (∀ s p, r = .ok (s, p) → w.st.snapshot = some s ∧ s.policy = some p) ∧ ∀ e, r = .error e → e = .exception) w := by
  unfold bound
  rw [holds_bind, holds_read]
  dsimp only
  rw [holds_bind]
  cases hs : w.st.snapshot with
  | none => exact ⟨rfl, fun s p hr => (by cases hr), fun e he => (by cases he; rfl)⟩
  | some s =>
    show Holds (deskContract latch) ctx i (expect .exception s.policy >>= fun p => pure (s, p)) _ w
    rw [holds_bind]
    cases hp : s.policy with
    | none => exact ⟨rfl, fun s p hr => (by cases hr), fun e he => (by cases he; rfl)⟩
    | some p => exact ⟨rfl, fun s' p' hr => (by cases hr; exact ⟨rfl, hp⟩), fun e he => (by cases he)⟩

/-- A value that may be missing. -/
theorem holds_expect {β : Type} {e : Exc} {o : Option β} {f : β → DM α} {Q : Except Exc α → DWorld → Prop}
    (hs : ∀ x, o = some x → Holds (deskContract latch) ctx i (f x) Q w) (hn : Q (.error e) w) :
    Holds (deskContract latch) ctx i (expect e o >>= f) Q w := by
  rw [holds_bind]
  cases o with
  | none => exact hn
  | some x => exact hs x rfl

/-- **`submit`, under `_run`.** -/
theorem holds_submitting (h : Begun latch w) (value : String) :
    Holds (deskContract latch) ctx i (submitting value) (Done latch true i w) w := by
  unfold submitting
  rw [holds_bind, holds_read]
  dsimp only
  split
  · exact h.skip (by simp [Exc.busy]) (by simp [Exc.busy]) (by simp [Exc.busy])
  rename_i hactive
  have hlease := h.leased (by simpa using hactive)
  have hcame : Came latch true i w w := h.came fun _ => hlease
  rw [holds_bind]
  refine hcame.check.mono fun r w₁ ⟨hok, herror⟩ => ?_
  cases r with
  | error e => exact (herror e rfl).2
  | ok _ =>
    obtain ⟨h₁, hm₁⟩ := hok rfl
    dsimp only
    rw [holds_bind]
    refine holds_bound.mono ?_
    rintro r w₁' ⟨rfl, hbound, hmissing⟩
    rcases r with e | ⟨s, p⟩
    · obtain rfl := hmissing e rfl
      exact h₁.done (by simp) (by simp)
    obtain ⟨hsnapshot, hpolicy⟩ := hbound s p rfl
    dsimp only
    split
    · exact h₁.done (by simp) (by simp)
    split
    · exact h₁.done (by simp) (by simp)
    rw [holds_bind, holds_read]
    dsimp only [id]
    split
    · exact h₁.done (by simp [Exc.busy]) (by simp [Exc.busy])
    rename_i hready
    have hphase : w₁.st.phase = .ready := not_not.1 hready
    split
    · exact h₁.done (by simp) (by simp)
    rename_i hlimit
    simp only [Bool.or_eq_true, decide_eq_true_eq, not_or, not_le, not_lt] at hlimit
    obtain ⟨hjob, hknown⟩ := h₁.rest.still (.inl hphase)
    have hasked := h₁.rest.ready hphase
    have hlease₁ := ((h₁.absorbed rfl).2).2
    have hbounds := h₁.bounds
    rw [hsnapshot, hasked] at hbounds
    have hspent := hbounds.spend hpolicy hlimit.1
    -- the turn is charged, whatever becomes of the request
    have hcharged : Came latch true i w (w₁.put w₁.st.charge) := by
      refine h₁.put (h₁.toCore.put h₁.owning ?_ h₁.jobs h₁.lost) rfl h₁.busy
        ⟨h₁.rest.gate, h₁.rest.active, h₁.rest.still, h₁.rest.ready, h₁.rest.ended, h₁.rest.faulted,
          h₁.rest.stopping, h₁.rest.unknown⟩ id id
      show Bounds w₁.st.snapshot w₁.st.sessionId w₁.st.request w₁.st.history (w₁.st.turn + 1)
      rw [hsnapshot, hasked]
      exact hspent
    rw [holds_bind, holds_write]
    dsimp only
    rw [holds_bind, holds_read]
    dsimp only [id]
    refine holds_expect (fun sid hsid => ?_) (hcharged.done (by simp) (by simp))
    refine holds_expect (fun g _ => ?_) (hcharged.done (by simp) (by simp))
    refine holds_expect (fun token htoken => ?_) (hcharged.done (by simp) (by simp))
    refine holds_expect (fun q hq => ?_) (hcharged.done (by simp) (by simp))
    obtain ⟨hturn, hname⟩ : token.turn = w₁.st.turn + 1 ∧ token.sessionId = sid := by
      unfold TurnToken.make at htoken
      split at htoken
      · cases htoken
        exact ⟨rfl, rfl⟩
      · cases htoken
    obtain ⟨hvalid, rfl⟩ : q.valid = true ∧ q = ⟨token, value, s.context, w₁.st.history, none⟩ := by
      unfold Request.make at hq
      split at hq
      · cases hq
        exact ⟨‹_›, rfl⟩
      · cases hq
    have hsid' : w₁.st.sessionId = some sid := hsid
    have hposed : Core latch (w₁.put
        (w₁.st.charge.ask (some ⟨token, value, s.context, w₁.st.history, none⟩))) := by
      refine h₁.toCore.put h₁.owning ?_ h₁.jobs h₁.lost
      show Bounds w₁.st.snapshot w₁.st.sessionId _ w₁.st.history (w₁.st.turn + 1)
      rw [hsid'] at hspent ⊢
      rw [hsnapshot]
      have hlength := h₁.bounds.length
      exact hspent.pose hvalid hturn hname rfl (by omega) fun x hx => by
        have hle := h₁.bounds.turns x hx
        omega
    rw [holds_bind, holds_write]
    dsimp only
    split
    · have hclarifying : Came latch true i w (w₁.put ((w₁.st.charge.ask
          (some ⟨token, value, s.context, w₁.st.history, none⟩)).tell .clarifying .conflict)) :=
        h₁.put (hposed.put hposed.owning hposed.bounds hposed.jobs hposed.lost) rfl h₁.busy
          (.waiting (.inr rfl) h₁.rest.gate hlease₁ hjob hknown) id id
      exact hclarifying.done (by simp) (by simp)
    · rw [holds_bind]
      have hstarts : Starts w₁ (w₁.st.charge.ask (some ⟨token, value, s.context, w₁.st.history, none⟩)) :=
        ⟨rfl, h₁.busy, hlease₁, h₁.rest.gate, hjob, hknown, id⟩
      refine (holds_start h₁ hposed hstarts).mono fun r w₂ ⟨hstarted, hfailed⟩ => ?_
      cases r with
      | ok _ => exact (hstarted rfl).done (by simp) (by simp)
      | error e => exact hfailed e rfl

/-- **`clarify`, under `_run`.** -/
theorem holds_clarifying (h : Begun latch w) (c : Clarification) :
    Holds (deskContract latch) ctx i (clarifying c) (Done latch false i w) w := by
  have hcame : Came latch false i w w := h.came fun ha => by cases ha
  unfold clarifying
  rw [holds_bind, holds_read]
  dsimp only
  split
  · exact hcame.done (by simp) (by simp)
  rename_i hphase
  rw [holds_bind]
  refine hcame.check.mono fun r w₁ ⟨hok, herror⟩ => ?_
  cases r with
  | error e => exact (herror e rfl).2
  | ok _ =>
    obtain ⟨h₁, hm₁⟩ := hok rfl
    have hphase₁ : w₁.st.phase = .clarifying := hm₁.phase.trans (not_not.1 hphase)
    obtain ⟨hjob, hknown⟩ := h₁.rest.still (.inr (.inl hphase₁))
    have hlease := h₁.rest.active (by unfold Desk.active; rw [hphase₁]; rfl)
    dsimp only
    rw [holds_bind, holds_read]
    dsimp only
    cases hreq : w₁.st.request with
    | none => exact h₁.done (by simp) (by simp)
    | some q =>
      dsimp only
      split
      · exact h₁.done (by simp) (by simp)
      split
      · refine holds_expect (fun q' hq' => ?_) (h₁.done (by simp) (by simp))
        obtain ⟨hvalid, rfl⟩ : q'.valid = true ∧ q' = { q with resolvedConflict := some c.conflictId } := by
          unfold Request.make at hq'
          split at hq'
          · cases hq'
            exact ⟨‹_›, rfl⟩
          · cases hq'
        have hposed : Core latch (w₁.put (w₁.st.ask (some { q with resolvedConflict := some c.conflictId }))) := by
          have hbounds := h₁.bounds
          refine h₁.toCore.put h₁.owning { hbounds with request := fun x hx => ?_ } h₁.jobs h₁.lost
          cases hx
          obtain ⟨-, hrest⟩ := hbounds.request q hreq
          exact ⟨hvalid, hrest⟩
        have hstarts : Starts w₁ (w₁.st.ask (some { q with resolvedConflict := some c.conflictId })) :=
          ⟨rfl, h₁.busy, hlease, h₁.rest.gate, hjob, hknown, id⟩
        rw [holds_bind, holds_write]
        dsimp only
        rw [holds_bind]
        refine (holds_start h₁ hposed hstarts).mono fun r w₂ ⟨hstarted, hfailed⟩ => ?_
        cases r with
        | ok _ => exact (hstarted rfl).done (by simp) (by simp)
        | error e => exact hfailed e rfl
      · rw [holds_bind, holds_write]
        have hdropped : Came latch false i w (w₁.put ((w₁.st.ask none).tell .ready .canceled)) :=
          h₁.put (h₁.toCore.put h₁.owning h₁.bounds.forget h₁.jobs h₁.lost) rfl h₁.busy
            (.waiting (.inl ⟨rfl, rfl⟩) h₁.rest.gate hlease hjob hknown) id id
        exact hdropped.done (by simp) (by simp)

/-- **`exit_key`, under `_run`.** -/
theorem holds_exiting (h : Begun latch w) (key : String) :
    Holds (deskContract latch) ctx i (exiting key) (Done latch true i w) w := by
  unfold exiting
  rw [holds_bind, holds_read]
  dsimp only
  split
  · exact h.skip (by simp) (by simp) (by simp)
  rename_i hactive
  have hlease := h.leased (by simpa using hactive)
  have hcame : Came latch true i w w := h.came fun _ => hlease
  rw [holds_bind]
  refine hcame.check.mono fun r w₁ ⟨hok, herror⟩ => ?_
  cases r with
  | error e => exact (herror e rfl).2
  | ok _ =>
    obtain ⟨h₁, -⟩ := hok rfl
    dsimp only
    rw [holds_bind]
    refine holds_bound.mono ?_
    rintro r w₁' ⟨rfl, -, hmissing⟩
    rcases r with e | ⟨s, p⟩
    · obtain rfl := hmissing e rfl
      exact h₁.done (by simp) (by simp)
    dsimp only
    split
    · exact h₁.done (by simp) (by simp)
    rw [holds_bind]
    refine (holds_gap h₁.toCore h₁.linked h₁.busy).mono ?_
    rintro r w₂ ⟨rfl, hgap, -⟩
    have h₂ : Came latch true i w w₂ := h₁.passed hgap
    dsimp only
    rw [holds_bind]
    refine (holds_invalidate h₂.toCore .ended).mono ?_
    rintro r w₃ ⟨rfl, s', rfl, hcore, hm, -⟩
    have h₃ : Came latch true i w (w₂.put s') :=
      h₂.put hcore hm.history (hm.busy.trans h₂.busy) (h₂.rest.moves hm id) hm.faulted
        fun hl => by rw [hm.lease]; exact hl
    exact h₃.done (by simp) (by simp)

/-! ## `poll` -/

theorem Done.value {absorbs : Bool} {β : Type} {x : α} {y : β} (h : Done latch absorbs i w (Except.ok (ε := Exc) x) w') :
    Done latch absorbs i w (Except.ok (ε := Exc) y) w' := by
  refine ⟨h.toCore, h.linked, h.busy, h.gate, ?_, fun _ => h.rest (by simp), fun ha => ?_⟩
  · rw [h.broken]
    simp
  · obtain ⟨hfault, hlease, hidle, -⟩ := h.absorbed ha
    exact ⟨hfault, hlease, fun hn => ⟨(hidle hn).1, by simp, by simp⟩, by simp⟩

theorem Done.raised {absorbs : Bool} {β : Type} {e : Exc} (h : Done latch absorbs i w (.error e : Except Exc α) w') :
    Done latch absorbs i w (.error e : Except Exc β) w' := by
  refine ⟨h.toCore, h.linked, h.busy, h.gate, ?_, fun hs => h.rest fun c => ?_, fun ha => ?_⟩
  · rw [h.broken]
    simp
  · have hne := hs c
    simpa using hne
  · obtain ⟨hfault, hlease, hidle, hescapes⟩ := h.absorbed ha
    refine ⟨hfault, hlease, fun hn => ?_, by simpa using hescapes⟩
    obtain ⟨hst, hi, hc⟩ := hidle hn
    exact ⟨hst, by simpa using hi, fun c => by simpa using hc c⟩

/-- **The job is asked.** -/
theorem holds_pollJob {absorbs : Bool} (h : Came latch absorbs i w w₁) :
    Holds (deskContract latch) ctx i pollJob (fun r w₂ => (∀ a, r = .ok a → Came latch absorbs i w w₂) ∧
      ∀ e, r = .error e → ∀ {β : Type}, Done latch absorbs i w (.error e : Except Exc β) w₂) w₁ := by
  have hcounted : Came latch absorbs i w (w₁.put w₁.st.count) :=
    h.put (h.toCore.put h.owning h.bounds h.jobs h.lost) rfl h.busy
      ⟨h.rest.gate, h.rest.active, h.rest.still, h.rest.ready, h.rest.ended, h.rest.faulted, h.rest.stopping,
        h.rest.unknown⟩ id id
  unfold pollJob
  rw [holds_bind, holds_write]
  dsimp only
  rw [holds_bind, holds_read]
  dsimp only
  cases hjob : (w₁.put w₁.st.count).st.job with
  | none =>
    refine ⟨fun a hr => (by cases hr), fun e he => ?_⟩
    cases he
    exact hcounted.done (by simp) (by simp)
  | some j =>
    dsimp only
    rw [holds_bind]
    refine (holds_call hcounted.toCore hcounted.linked hcounted.busy (.poll j) fun ho => by cases ho).mono ?_
    rintro r w₂ ⟨a, rfl, hasked⟩
    have hgiven : a ≠ .raised true → Came latch absorbs i w w₂ := fun ha =>
      hcounted.passed (hasked.passed (r := .ok ()) ⟨fun he => (by cases he), fun ht => absurd ht ha⟩)
    cases a with
    | raised interrupt =>
      cases interrupt with
      | true =>
        refine ⟨fun a hr => (by cases hr), fun e he => ?_⟩
        cases he
        exact hcounted.fail (hasked.passed (by simp)) (by simp)
      | false =>
        refine ⟨fun a hr => (by cases hr), fun e he => ?_⟩
        cases he
        exact (hgiven (by simp)).done (by simp) (by simp)
    | none => exact ⟨fun _ _ => hgiven (by simp), fun e he => (by cases he)⟩
    | snapshot x => exact ⟨fun _ _ => hgiven (by simp), fun e he => (by cases he)⟩
    | job k => exact ⟨fun _ _ => hgiven (by simp), fun e he => (by cases he)⟩
    | response x => exact ⟨fun _ _ => hgiven (by simp), fun e he => (by cases he)⟩
    | true => exact ⟨fun _ _ => hgiven (by simp), fun e he => (by cases he)⟩
    | object => exact ⟨fun _ _ => hgiven (by simp), fun e he => (by cases he)⟩

/-- What is known of an exchange that is to be published. -/
structure Publishing (s : Snapshot) (p : ConversationPolicy) (q : Request) (size : ℕ) (d : Desk) : Prop where
  snapshot : d.snapshot = some s
  policy : s.policy = some p
  request : d.request = some q
  size : contextSize s d.history + q.text.length + size ≤ p.limits.contextChars

theorem Publishing.moves {s : Snapshot} {p : ConversationPolicy} {q : Request} {size : ℕ}
    (h : Publishing s p q size d) (hm : Moves d d') : Publishing s p q size d' :=
  ⟨hm.snapshot.trans h.snapshot, h.policy, hm.request.trans h.request, by rw [hm.history]; exact h.size⟩

/-- **The exchange is published.** -/
theorem holds_publish {absorbs : Bool} (h : Came latch absorbs i w w₁) {s : Snapshot} {p : ConversationPolicy}
    {q : Request} {x : Exchange} (hp : Publishing s p q x.response.length w₁.st) (hl : w₁.st.lease ≠ none)
    (hj : w₁.st.job = none) (hu : w₁.st.unknownJob = false) (htoken : x.token = q.token) (htext : x.text = q.text) :
    Holds (deskContract latch) ctx i (publish x) (Done latch absorbs i w) w₁ := by
  unfold publish
  rw [holds_bind]
  refine (holds_gap h.toCore h.linked h.busy).mono ?_
  rintro r w₂ ⟨rfl, hgap, m, log, hlog, hst⟩
  have h₂ := h.passed hgap
  have hm := hgap.moves
  obtain ⟨hsnapshot, hpolicy, hrequest, hsize⟩ := hp.moves hm
  dsimp only
  rw [holds_bind, holds_read]
  dsimp only [id]
  split
  · exact h₂.done (by simp) (by simp)
  split
  · exact h₂.done (by simp) (by simp)
  rw [holds_write]
  have hbounds := h₂.bounds
  have hcore : Core latch (w₂.put (w₂.st.publish x)) := by
    refine h₂.toCore.put h₂.owning ?_ h₂.jobs h₂.lost
    show Bounds w₂.st.snapshot w₂.st.sessionId none (w₂.st.history ++ [x]) w₂.st.turn
    rw [hsnapshot, hrequest] at hbounds
    rw [hsnapshot]
    refine hbounds.publish hpolicy htoken ?_
    rw [htext]
    exact hsize
  have hlinked : Linked w₂.log (w₂.st.publish x) := by
    rw [hlog]
    refine .inr (.inl ⟨q, x, ?_, ?_, ?_, htoken, htext, ?_⟩)
    · rw [hst]
      exact hrequest
    · rw [hst]
      exact ((hbounds.request q hrequest).2.2.2.2).1
    · rw [hst]
      rfl
    · rw [hst]
      rfl
  have hlease₂ : w₂.st.lease ≠ none := by
    rw [hm.lease]
    exact hl
  refine ⟨hcore, hlinked, h₂.busy, h₂.rest.gate, ?_,
    fun _ => .waiting (.inl ⟨rfl, rfl⟩) h₂.rest.gate hlease₂ (hm.job.trans hj) (hm.unknownJob.trans hu), fun ha => ?_⟩
  · rw [World.put_log, h₂.broken]
    simp
  · obtain ⟨hfault, hlease, -⟩ := h₂.absorbed ha
    exact ⟨hfault, fun _ => hlease₂, fun hn => absurd hn hlease, by simp⟩

/-- A job that is dropped clean. -/
theorem Rest.drop {log : List DEntry} (h : Rest latch log d) : Rest latch log (d.drop true) :=
  ⟨h.gate, h.active, fun _ => ⟨rfl, rfl⟩, h.ready, h.ended, h.faulted, h.stopping, fun hk => (by cases hk)⟩

/-- **A result is concluded.** -/
theorem holds_conclude {absorbs : Bool} (h : Came latch absorbs i w w₁) (hl : w₁.st.lease ≠ none) (response : Response) :
    Holds (deskContract latch) ctx i (conclude response) (Done latch absorbs i w) w₁ := by
  unfold conclude
  rw [holds_bind]
  refine holds_bound.mono ?_
  rintro r w₁' ⟨rfl, hbound, hmissing⟩
  rcases r with e | ⟨s, p⟩
  · obtain rfl := hmissing e rfl
    exact h.done (by simp) (by simp)
  obtain ⟨hsnapshot, hpolicy⟩ := hbound s p rfl
  dsimp only
  rw [holds_bind, holds_read]
  dsimp only [id]
  split
  · exact h.done (by simp) (by simp)
  rename_i htoken
  refine holds_expect (fun q hq => ?_) (h.done (by simp) (by simp))
  split
  · exact h.done (by simp) (by simp)
  rename_i hsize
  simp only [Bool.or_eq_true, decide_eq_true_eq, not_or, not_lt] at hsize
  have hpublishing : Publishing s p q response.text.length w₁.st := ⟨hsnapshot, hpolicy, hq, hsize.2⟩
  have hpending : response.token = q.token := by
    have heq := not_not.1 htoken
    unfold Desk.pending at heq
    rw [hq] at heq
    simpa using heq
  rw [holds_bind]
  refine (holds_cleanup h.toMid).mono fun r w₂ hcleaned => ?_
  rcases hcleaned.ended with ⟨d, clean, rfl, hm, hst, -⟩ | ⟨rfl, hm, -⟩
  swap
  · exact h.fail ⟨hcleaned.mid, hm, hcleaned.broken.trans (by simp), hcleaned.disturbed⟩ (by simp)
  have hlease₂ : w₂.st.lease ≠ none := by
    rw [hst]
    show d.lease ≠ none
    rw [hm.lease]
    exact hl
  have hfault₂ : w₁.st.owner.state = .faulted → w₂.st.owner.state = .faulted := by
    rw [hst]
    exact hm.faulted
  have hbroken₂ : Broken w₂.log i ↔ Broken w.log i := by
    rw [hcleaned.broken, h.broken]
    simp
  have hrest₂ : Rest latch w₂.log d := h.rest.moves hm hcleaned.disturbed
  dsimp only
  cases clean with
  | false =>
    rw [if_pos (by rfl)]
    refine ⟨hcleaned.mid.toCore, hcleaned.mid.linked, hcleaned.mid.busy, by rw [hst]; exact hrest₂.gate, ?_,
      fun hs => absurd rfl (hs .cleanup), fun ha => ?_⟩
    · rw [hbroken₂]
      simp
    · obtain ⟨hfault, hlease, -⟩ := h.absorbed ha
      exact ⟨fun hf => hfault₂ (hfault hf), fun _ => hlease₂, fun hn => absurd hn hlease, by simp⟩
  | true =>
    have h₂ : Came latch absorbs i w w₂ := by
      refine ⟨⟨hcleaned.mid, by rw [hst]; exact hrest₂.drop⟩, hbroken₂, fun ha => ?_⟩
      obtain ⟨hfault, hlease, -⟩ := h.absorbed ha
      exact ⟨fun hf => hfault₂ (hfault hf), hlease, hlease₂⟩
    have hpublishing₂ : Publishing s p q response.text.length w₂.st := by
      rw [hst]
      obtain ⟨h1, h2, h3, h4⟩ := hpublishing.moves hm
      exact ⟨h1, h2, h3, h4⟩
    rw [if_neg (by simp), holds_bind]
    refine h₂.check.mono fun r w₃ ⟨hok, herror⟩ => ?_
    cases r with
    | error e => exact (herror e rfl).2
    | ok _ =>
      obtain ⟨h₃, hm₃⟩ := hok rfl
      have hpublishing₃ := hpublishing₂.moves hm₃
      dsimp only
      rw [holds_bind, holds_read]
      dsimp only
      refine holds_expect (fun q' hq' => ?_) (h₃.done (by simp) (by simp))
      have heq : q' = q := by
        have hq₃ := hpublishing₃.request
        rw [hq'] at hq₃
        simpa using hq₃
      subst heq
      refine holds_expect (fun x hx => ?_) (h₃.done (by simp) (by simp))
      obtain rfl : x = ⟨response.token, q'.text, response.text, q'.resolvedConflict⟩ := by
        unfold Exchange.make at hx
        split at hx
        · cases hx
          rfl
        · cases hx
      refine holds_publish h₃ hpublishing₃ ?_ ?_ ?_ hpending rfl
      · rw [hm₃.lease]
        exact hlease₂
      · rw [hm₃.job, hst]
        rfl
      · rw [hm₃.unknownJob, hst]
        rfl

/-- **`poll`, under `_run`.** -/
theorem holds_polling (h : Begun latch w) : Holds (deskContract latch) ctx i polling (Done latch true i w) w := by
  unfold polling
  rw [holds_bind, holds_read]
  dsimp only
  split
  · exact h.skip (by simp) (by simp) (by simp)
  rename_i hactive
  have hlease := h.leased (by simpa using hactive)
  have hcame : Came latch true i w w := h.came fun _ => hlease
  rw [holds_bind]
  refine hcame.check.mono fun r w₁ ⟨hok, herror⟩ => ?_
  cases r with
  | error e => exact (herror e rfl).2
  | ok _ =>
    obtain ⟨h₁, -⟩ := hok rfl
    dsimp only
    rw [holds_bind, holds_read]
    dsimp only
    split
    · exact h₁.done (by simp) (by simp)
    rw [holds_bind]
    refine (holds_pollJob h₁).mono fun r w₂ ⟨hpolled, hfailed⟩ => ?_
    cases r with
    | error e => exact hfailed e rfl
    | ok a =>
      have h₂ := hpolled a rfl
      dsimp only
      rw [holds_bind]
      refine h₂.check.mono fun r w₃ ⟨hok', herror'⟩ => ?_
      cases r with
      | error e => exact (herror' e rfl).2
      | ok _ =>
        obtain ⟨h₃, -⟩ := hok' rfl
        dsimp only
        rw [holds_bind]
        refine holds_bound.mono ?_
        rintro r w₃' ⟨rfl, -, hmissing⟩
        rcases r with e | ⟨s, p⟩
        · obtain rfl := hmissing e rfl
          exact h₃.done (by simp) (by simp)
        cases a with
        | none =>
          dsimp only
          rw [holds_bind, holds_read]
          dsimp only
          split
          · exact h₃.done (by simp) (by simp)
          · exact h₃.done (by simp) (by simp)
        | response x =>
          dsimp only
          rw [holds_bind]
          refine (holds_conclude h₃ ((h₃.absorbed rfl).2).2 x).mono fun r w₄ hdone => ?_
          cases r with
          | ok _ => exact hdone.value
          | error e => exact hdone.raised
        | raised interrupt => exact h₃.done (by simp) (by simp)
        | snapshot x => exact h₃.done (by simp) (by simp)
        | job k => exact h₃.done (by simp) (by simp)
        | true => exact h₃.done (by simp) (by simp)
        | object => exact h₃.done (by simp) (by simp)

/-! ## `enter` -/

/-- What `_eligible` lets through has a policy whose limits its context keeps. -/
theorem eligible_spec {s : Snapshot} {p : ConversationPolicy} (h : eligible s = .ok p) :
    s.policy = some p ∧ itemChars s.context.items ≤ p.limits.contextChars := by
  unfold eligible at h
  split at h
  · cases h
  rename_i q hq
  split at h
  · cases h
  split at h
  · cases h
  split at h
  · cases h
  rename_i hlimit
  cases h
  simp only [Bool.or_eq_true, decide_eq_true_eq, not_or, not_lt] at hlimit
  exact ⟨hq, hlimit.2⟩

/-- A session that is entered. -/
theorem Bounds.opened {s : Snapshot} {p : ConversationPolicy} {sid : Option String} (hv : s.valid = true)
    (hp : s.policy = some p) (hc : itemChars s.context.items ≤ p.limits.contextChars) :
    Bounds (some s) sid none [] 0 := by
  refine ⟨fun _ => rfl, fun x hx => ?_, le_rfl, List.Pairwise.nil, fun x hx => (by cases hx),
    fun x hx => (by cases hx), fun q hq => (by cases hq)⟩
  cases hx
  exact ⟨hv, p, hp, Nat.zero_le _, by simpa [contextSize, historyChars] using hc⟩

/-- **`enter`, under `_run`.** -/
theorem holds_entering (h : Begun latch w) (channel : Entry) :
    Holds (deskContract latch) ctx i (entering channel) (Done latch false i w) w := by
  have hcame : Came latch false i w w := h.came fun ha => by cases ha
  unfold entering
  rw [holds_bind, holds_read]
  dsimp only
  split
  · exact hcame.done (by simp [Exc.busy]) (by simp [Exc.busy])
  rename_i hphase
  have hinactive : w.st.phase = .inactive := not_not.1 hphase
  rw [holds_bind]
  refine (holds_sample h.toCore h.linked h.busy).mono fun r w₁ ⟨hpass, hstops, hvalid⟩ => ?_
  cases r with
  | error e =>
    refine hcame.fail (hpass.result (by simp)) ?_
    rcases hstops e rfl with ⟨c, rfl⟩ | rfl <;> simp
  | ok s =>
    have h₁ : Came latch false i w w₁ := hcame.passed hpass
    dsimp only
    split
    · exact h₁.done (by simp) (by simp)
    rename_i p heligible
    obtain ⟨hpolicy, hchars⟩ := eligible_spec heligible
    split
    · exact h₁.done (by simp) (by simp)
    rw [holds_bind, holds_read]
    dsimp only [id]
    split
    · exact h₁.done (by simp) (by simp)
    rw [holds_bind]
    cases hbegin : w₁.st.owner.begin (some "conversation") with
    | error x => exact h₁.done (by simp) fun ha => (by cases ha)
    | ok v =>
      obtain ⟨g, o⟩ := v
      -- an inactive conversation has nothing: what it begins with is all new
      have hphase₁ : w₁.st.phase = .inactive := hpass.moves.phase.trans hinactive
      obtain ⟨hlease, hrequest, -, -, hhistory⟩ := h₁.rest.ended (.inl hphase₁)
      obtain ⟨hjob, hknown⟩ := h₁.rest.still (.inr (.inr hphase₁))
      have howning : Owning latch w₁.st.owner none w₁.st.others w₁.st.deeds := by
        have howning := h₁.owning
        rw [hlease] at howning
        exact howning
      have hopened : Came latch false i w
          (w₁.put ((((w₁.st.borrow g o).name g).open_ s).tell .ready .ready)) := by
        refine h₁.put (h₁.toCore.put (howning.borrow hbegin) ?_ h₁.jobs fun hn => (by cases hn)) hhistory.symm h₁.busy
          (.waiting (.inl ⟨rfl, hrequest⟩) h₁.rest.gate (fun hn => (by cases hn)) hjob hknown)
          (fun hf => absurd hbegin (begin_faulted hf _)) fun _ hn => (by cases hn)
        show Bounds (some s) _ w₁.st.request [] 0
        rw [hrequest]
        exact .opened (hvalid s rfl) hpolicy hchars
      dsimp only [fromOwner]
      show Holds (deskContract latch) ctx i (do
        Prog.write fun d => (d.borrow g o).name g
        Prog.write fun d => d.open_ s
        Prog.write fun d => d.tell .ready .ready
        check
        pure true) (Done latch false i w) w₁
      rw [holds_bind, holds_write]
      dsimp only
      rw [holds_bind, holds_write]
      dsimp only
      rw [holds_bind, holds_write]
      dsimp only
      rw [holds_bind]
      refine hopened.check.mono fun r w₂ ⟨hok, herror⟩ => ?_
      cases r with
      | error e => exact (herror e rfl).2
      | ok _ => exact (hok rfl).1.done (by simp) (by simp)

/-! ## `_run` -/

/-- A conversation that is over, as its display shows. -/
structure Over (d : Desk) : Prop where
  display : d.display = .inactive ∨ d.display = .faulted
  cleared : d.history = [] ∧ d.snapshot = none ∧ d.sessionId = none ∧ d.request = none

theorem Rest.over {log : List DEntry} (h : Rest latch log d) (hi : d.intent = none) (ha : d.active = false) : Over d ∧ d.lease = none := by
  have hphase : d.phase = .inactive ∨ d.phase = .faulted := by
    unfold Desk.active at ha
    cases hp : d.phase with
    | inactive => exact .inl rfl
    | faulted => exact .inr rfl
    | stopping => exact absurd hi (h.stopping hp).1
    | ready => rw [hp] at ha; exact absurd ha (by decide)
    | processing => rw [hp] at ha; exact absurd ha (by decide)
    | clarifying => rw [hp] at ha; exact absurd ha (by decide)
  obtain ⟨hl, hr, hs, hsid, hh⟩ := h.ended hphase
  refine ⟨⟨?_, hh, hs, hsid, hr⟩, hl⟩
  unfold Desk.display
  rw [if_neg (by simp [hi])]
  exact hphase

/-- **What `_run` leaves.** Where a fault of another client is to be absorbed, it is if and only if the
lease was given up already, and no callback raised what is no `Exception`. -/
structure Ran (latch : Bool) (absorbs : Bool) (i : ℕ) (w : DWorld) (r : Except Exc α) (w' : DWorld) : Prop
    extends Core latch w' where
  linked : Linked w'.log w'.st
  busy : w'.st.busy = false
  rest : Rest latch w'.log w'.st
  absorbed : absorbs = true → ¬ Broken w.log i → w.st.owner.state = .faulted → w'.st.active = false →
    ((Over w'.st ∧ r ≠ .error (.session .faulted)) ↔ w.st.lease = none ∧ ¬ Broken w'.log i)

/-- What the operation leaves to `_run`, its `_Stop` caught. -/
structure Handled (latch : Bool) (absorbs : Bool) (i : ℕ) (w : DWorld) (r : Except Exc α) (w' : DWorld) : Prop
    extends Core latch w' where
  linked : Linked w'.log w'.st
  busy : w'.st.busy = true
  gate : w'.st.gate = false
  broken : Broken w'.log i ↔ r = .error .interrupt ∨ Broken w.log i
  rest : w'.st.intent = none → Rest latch w'.log w'.st
  absorbed : absorbs = true → (w.st.owner.state = .faulted → w'.st.owner.state = .faulted) ∧
    (w.st.lease ≠ none → w'.st.lease ≠ none) ∧
    (w.st.lease = none → w'.st.lease = none ∧ r ≠ .error .interrupt) ∧ r ≠ .error (.session .faulted)

theorem Done.handled {absorbs : Bool} {β : Type} {r' : Except Exc β} (h : Done latch absorbs i w r w')
    (hs : ∀ c, r ≠ .error (.stop c)) (hi : r' = .error .interrupt ↔ r = .error .interrupt)
    (he : r' = .error (.session .faulted) ↔ r = .error (.session .faulted)) : Handled latch absorbs i w r' w' := by
  refine ⟨h.toCore, h.linked, h.busy, h.gate, by rw [h.broken, hi], fun _ => h.rest hs, fun ha => ?_⟩
  obtain ⟨hfault, hlease, hidle, hescapes⟩ := h.absorbed ha
  refine ⟨hfault, hlease, fun hn => ?_, mt he.1 hescapes⟩
  obtain ⟨hst, hbroken, -⟩ := hidle hn
  exact ⟨by rw [hst]; exact hn, mt hi.1 hbroken⟩

/-- **The operation, and the handler of its `_Stop`.** -/
theorem holds_operation {absorbs : Bool} {operation : DM α}
    (hop : Holds (deskContract latch) ctx i operation (Done latch absorbs i w) w₁) :
    Holds (deskContract latch) ctx i (onStop (some <$> operation) fun code => do
      gap
      invalidate code
      pure none) (Handled latch absorbs i w) w₁ := by
  unfold onStop
  rw [holds_catching]
  show Holds (deskContract latch) ctx i (operation >>= fun a => pure (some a)) _ w₁
  rw [holds_bind]
  refine hop.mono fun r w₂ hdone => ?_
  cases r with
  | ok a => exact hdone.handled (by simp) (by simp) (by simp)
  | error e =>
    cases e with
    | stop c =>
      dsimp only
      rw [holds_bind]
      refine (holds_gap hdone.toCore hdone.linked hdone.busy).mono ?_
      rintro r w₃ ⟨rfl, hgap, -⟩
      have hm := hgap.moves
      dsimp only
      rw [holds_bind]
      refine (holds_invalidate hgap.mid.toCore c).mono ?_
      rintro r w₄ ⟨rfl, s, rfl, hcore, hms, hintent⟩
      have hlevel : Level w₃.log s.history := hms.history ▸ hgap.mid.level
      have hlinked : Linked w₃.log s := hlevel.linked
      refine ⟨hcore, hlinked, hms.busy.trans hgap.mid.busy,
        hms.gate.trans (hm.gate.trans hdone.gate), ?_, fun hn => absurd hn hintent, fun ha => ?_⟩
      · rw [World.put_log, hgap.broken, hdone.broken]
        simp
      · obtain ⟨hfault, hlease, hidle, -⟩ := hdone.absorbed ha
        refine ⟨fun hf => hms.faulted (hm.faulted (hfault hf)), fun hl => ?_,
          fun hn => absurd rfl ((hidle hn).2.2 c), by simp⟩
        rw [World.put_st, hms.lease, hm.lease]
        exact hlease hl
    | interrupt => exact hdone.handled (by simp) (by simp) (by simp)
    | session x => exact hdone.handled (by simp) (by simp) (by simp)
    | value => exact hdone.handled (by simp) (by simp) (by simp)
    | exception => exact hdone.handled (by simp) (by simp) (by simp)

/-- Where the lease of a call is gone before it, the call finds none. -/
theorem Handled.ends {absorbs : Bool} {β : Type} {r' : Except Exc β} {log : List DEntry}
    (h : Handled latch absorbs i w r w₁) (hb : Broken log i ↔ Broken w₁.log i) (hover : Over d)
    (hl : w₁.st.lease = none)
    (he : r' = .error (.session .faulted) ↔ r = .error (.session .faulted)) :
    absorbs = true → ¬ Broken w.log i →
      ((Over d ∧ r' ≠ .error (.session .faulted)) ↔ w.st.lease = none ∧ ¬ Broken log i) := by
  intro ha hbroken
  obtain ⟨-, hlease, hidle, hescapes⟩ := h.absorbed ha
  have hnone : w.st.lease = none := by
    by_contra hn
    exact hlease hn hl
  refine ⟨fun _ => ⟨hnone, ?_⟩, fun _ => ⟨hover, mt he.1 hescapes⟩⟩
  rw [hb, h.broken]
  rintro (hi | hbroken')
  · exact (hidle hnone).2 hi
  · exact hbroken hbroken'

/-- **`_run`.** -/
theorem holds_run {absorbs : Bool} {operation : DM α} (h : Core latch w) (hl : Level w.log w.st.history)
    (hrest : Rest latch w.log w.st) (hb : w.st.busy = false)
    (hop : ∀ w₁, Begun latch w₁ → Holds (deskContract latch) ctx i operation (Done latch absorbs i w₁) w₁) :
    Holds (deskContract latch) ctx i (run operation) (Ran latch absorbs i w) w := by
  have hbegun : Begun latch (w.put (w.st.occupy true)) :=
    ⟨⟨h.put h.owning h.bounds h.jobs h.lost, hl, rfl⟩, hrest.gate, hrest.active, hrest.still, hrest.ready,
      hrest.ended, hrest.faulted, hrest.stopping, hrest.unknown⟩
  unfold run
  rw [holds_bind, holds_read]
  dsimp only
  rw [hb, if_neg (by simp), holds_bind, holds_write]
  dsimp only
  rw [holds_lastly, holds_bind, holds_attempt]
  refine (holds_operation (hop _ hbegun)).mono fun r w₁ h₁ => ?_
  dsimp only
  rw [holds_bind]
  refine (holds_gap h₁.toCore h₁.linked h₁.busy).mono ?_
  rintro r' w₂ ⟨rfl, hgap, -⟩
  have hm := hgap.moves
  have hlease₂ : w₂.st.lease = w₁.st.lease := hm.lease
  have hbroken₂ : Broken w₂.log i ↔ Broken w₁.log i :=
    hgap.broken.trans ⟨fun hb => hb.resolve_left (by simp), .inr⟩
  dsimp only
  rw [holds_bind, holds_read]
  dsimp only
  -- what the operation raised is raised again, or what it returned is returned
  have hresult : ∀ {w₃ : DWorld} {stopped : Bool} {Q : Except Exc (Option α × Bool) → DWorld → Prop},
      (∀ r', (r' = .error (.session .faulted) ↔ r = .error (.session .faulted)) → Q r' w₃) →
      Holds (deskContract latch) ctx i (do
        let v ← Prog.ofExcept r
        pure (v, stopped)) Q w₃ := by
    intro w₃ stopped Q hq
    rw [holds_bind]
    cases r with
    | ok v => exact hq _ (by simp)
    | error e => exact hq _ (by simp)
  split
  · rename_i hsome
    have hintent : w₂.st.intent ≠ none := by
      intro hn
      rw [hn] at hsome
      cases hsome
    rw [holds_bind]
    refine (holds_stop hgap.mid (hm.gate.trans h₁.gate) hintent).mono fun r' w₃ hstopped => ?_
    have hrest₃ := hstopped.rest
    have hrest : Rest latch w₃.log (w₃.st.occupy false) :=
      ⟨hrest₃.gate, hrest₃.active, hrest₃.still, hrest₃.ready, hrest₃.ended, hrest₃.faulted, hrest₃.stopping,
        hrest₃.unknown⟩
    have hcore : Core latch (w₃.put (w₃.st.occupy false)) :=
      hstopped.toCore.put hstopped.owning hstopped.bounds hstopped.jobs hstopped.lost
    cases r' with
    | ok _ =>
      obtain ⟨hnone, hdone⟩ := hstopped.done rfl
      have hbroken₃ : Broken w₃.log i ↔ Broken w₁.log i := by
        rw [hstopped.broken, hbroken₂]
        simp
      refine hresult fun r' he => ⟨hcore, hstopped.linked, rfl, hrest, fun ha hbroken hf hactive => ?_⟩
      obtain ⟨hfault, -⟩ := h₁.absorbed ha
      obtain ⟨hlease, -⟩ := hdone (hm.faulted (hfault hf))
      exact h₁.ends hbroken₃ (hrest.over hnone hactive).1
        (hlease₂.symm.trans hlease) he ha hbroken
    | error e =>
      obtain ⟨hphase, herror⟩ := hstopped.failed e rfl
      refine ⟨hcore, hstopped.linked, rfl, hrest, fun ha hbroken hf hactive => ?_⟩
      obtain ⟨-, -, hidle, -⟩ := h₁.absorbed ha
      constructor
      · rintro ⟨hover, -⟩
        have hdisplay : (w₃.st.occupy false).display = .stopping := by
          unfold Desk.display
          split
          · rfl
          · exact hphase
        have hshown := hover.display
        rw [show (w₃.put (w₃.st.occupy false)).st.display = .stopping from hdisplay] at hshown
        simp at hshown
      · rintro ⟨hnone, hunbroken⟩
        rcases herror with rfl | ⟨-, hne⟩
        · exact absurd (hstopped.broken.2 (.inl rfl)) hunbroken
        · exact absurd (hlease₂.trans (hidle hnone).1) hne
  · rename_i hnone
    have hintent : w₂.st.intent = none := by simpa using hnone
    have hrest₂ : Rest latch w₂.log w₂.st := by
      refine (h₁.rest ?_).moves hm hgap.disturbed
      by_contra hn
      exact hm.intent hn hintent
    have hrest : Rest latch w₂.log (w₂.st.occupy false) :=
      ⟨hrest₂.gate, hrest₂.active, hrest₂.still, hrest₂.ready, hrest₂.ended, hrest₂.faulted, hrest₂.stopping,
        hrest₂.unknown⟩
    have hcore : Core latch (w₂.put (w₂.st.occupy false)) :=
      hgap.mid.toCore.put hgap.mid.owning hgap.mid.bounds hgap.mid.jobs hgap.mid.lost
    refine hresult fun r' he => ⟨hcore, hgap.mid.linked, rfl, hrest, fun ha hbroken hf hactive => ?_⟩
    obtain ⟨hover, hlease⟩ := hrest.over hintent hactive
    exact h₁.ends hbroken₂ hover (hlease₂.symm.trans hlease) he ha hbroken

end Conversation

end Arhugula
