import Arhugula.Proof.ConversationSafety
import Arhugula.Reentrant.Returns

/-!
# What a poll reports

A poll that has published the exchange of its turn looks at the intent once more before it is over. Where it finds one
it stops, and returns nothing; but a stop that begins again keeps the history, with the exchange in it.

So **a poll reports its turn as the history does, if and only if no cancellation strikes between the publication and the
end of the transition** (`poll_reports`). The body is verified under a contract that knows only that what is under way
stays (`turnContract`), and the tokens in the history come from the invariant of the conversation.
-/

namespace Arhugula

namespace Conversation

open Reentrant Session

variable {latch : Bool} {w w' : DWorld} {s : Desk} {ctx : List (ℕ × Op)} {i : ℕ} {L : DWorld → Prop}
  {xs : List Exchange}

/-! ## What a poll is to report -/

/-- The exchange of the turn that is pending in `s` is in a history. -/
def Told (s : Desk) (history : List Exchange) : Prop :=
  ∃ q x, s.request = some q ∧ x ∈ history ∧ x.token = q.token

/-- In the call `i`, made in `s`, the exchange of its turn was published. -/
def Publication (s : Desk) (i : ℕ) (log : List DEntry) : Prop := ∃ e ∈ log, e.frame = i ∧ Told s e.st.history

/-- **A cancellation struck after the publication**, and before the call was over. -/
def Struck (s : Desk) (i : ℕ) (log : List DEntry) : Prop :=
  ∃ e ∈ log, e.frame = i ∧ Told s e.st.history ∧ e.st.intent ≠ none

/-- A response was returned. -/
def Answers (r : Except Exc Value) : Prop := ∃ response, r = .ok (.response response)

/-- **A call reports its turn**: with its exchange published it returns a response and leaves it in the history, and
else neither. -/
structure Reported (s : Desk) (r : Except Exc Value) (i : ℕ) (older : List DEntry) (d : Desk) : Prop where
  published : Publication s i older → Answers r ∧ Told s d.history
  silent : ¬ Publication s i older → ¬ Answers r ∧ ¬ Told s d.history

theorem Struck.published {log : List DEntry} (h : Struck s i log) : Publication s i log := by
  obtain ⟨e, he, hf, ht, -⟩ := h
  exact ⟨e, he, hf, ht⟩

/-- A report says of the response what the history says. -/
theorem Reported.iff {r : Except Exc Value} {older : List DEntry} {d : Desk} (h : Reported s r i older d) :
    Answers r ↔ Told s d.history := by
  by_cases hp : Publication s i older
  · obtain ⟨ha, ht⟩ := h.published hp
    exact ⟨fun _ => ht, fun _ => ha⟩
  · obtain ⟨ha, ht⟩ := h.silent hp
    exact ⟨fun hr => absurd hr ha, fun hd => absurd hd ht⟩

/-- How a poll ends, of an exchange that is not in the history before it. -/
inductive Ends (s : Desk) (r : Except Exc Value) (i : ℕ) (older : List DEntry) (d : Desk) : Prop where
  | silent (returned : ¬ Answers r) (kept : ∀ e ∈ older, e.frame = i → e.st.history = s.history)
      (left : d.history = s.history ∨ d.history = [])
  | told (returned : Answers r) (left : Told s d.history) (published : Publication s i older)
      (unstruck : ¬ Struck s i older)
  | struck (returned : ¬ Answers r) (struck : Struck s i older)

/-- What is not in the history before the call is reported unless it is struck. -/
theorem Ends.reported {r : Except Exc Value} {older : List DEntry} {d : Desk} (h : Ends s r i older d)
    (hs : ¬ Told s s.history) : Reported s r i older d ↔ ¬ Struck s i older := by
  cases h with
  | silent hreturned hkept hleft =>
    have hnone : ¬ Publication s i older := by
      rintro ⟨e, he, hf, ht⟩
      rw [hkept e he hf] at ht
      exact hs ht
    have hd : ¬ Told s d.history := by
      rcases hleft with hsame | hempty
      · rw [hsame]
        exact hs
      · rw [hempty]
        rintro ⟨q, x, -, hx, -⟩
        cases hx
    exact ⟨fun _ hstruck => hnone hstruck.published, fun _ => ⟨fun hp => absurd hp hnone, fun _ => ⟨hreturned, hd⟩⟩⟩
  | told hreturned hleft hp hunstruck =>
    exact ⟨fun _ => hunstruck, fun _ => ⟨fun _ => ⟨hreturned, hleft⟩, fun hn => absurd hp hn⟩⟩
  | struck hreturned hstruck =>
    exact ⟨fun hr => absurd (hr.published hstruck.published).1 hreturned, fun hn => absurd hstruck hn⟩

/-! ## The contract -/

/-- What is under way stays. -/
def turnContract (latch : Bool) : Contract (conversation latch) where
  Inv _ := True
  Rel _ w w' := w.st.busy = true → Moves w.st w'.st
  refl _ w _ := .refl w.st
  trans h h' hb := (h hb).trans (h' ((h hb).busy.trans hb))

theorem turnContract_weaker : (turnContract latch).Weaker (deskContract latch) :=
  ⟨fun _ _ => trivial, fun _ _ _ h hb => (h.2 hb).1⟩

/-- Any body runs under it. -/
theorem holds_any {α : Type} {p : DM α} {Q : Except Exc α → DWorld → Prop} (h : ∀ r w', Q r w') :
    Holds (turnContract latch) ctx i p Q w := by
  induction p generalizing w with
  | ret a => exact h _ _
  | fail e => exact h _ _
  | get k ih => exact ih _
  | set s k ih => exact ih
  | call op k ih => exact ⟨trivial, fun w' _ _ _ a _ => ih a⟩

/-- **A call under way that has published nothing**: neither the history nor any entry of the call differs. -/
structure Still (i : ℕ) (xs : List Exchange) (w : DWorld) : Prop where
  busy : w.st.busy = true
  history : w.st.history = xs
  entries : ∀ e ∈ w.log, e.frame = i → e.st.history = xs

theorem Still.push (h : Still i xs w) (x : Act Op Answer Exc Method Value) : Still i xs (w.push i x) := by
  refine ⟨h.busy, h.history, fun e he hf => ?_⟩
  rcases List.mem_cons.1 he with rfl | he
  · exact h.history
  · exact h.entries e he hf

theorem Still.grows (h : Still i xs w) (hg : Grows i w w') (hm : Moves w.st w'.st) : Still i xs w' := by
  refine ⟨hm.busy.trans h.busy, hm.history.trans h.history, fun e he hf => ?_⟩
  obtain ⟨-, new, hl, hnew⟩ := hg
  rw [hl] at he
  rcases List.mem_append.1 he with he | he
  · exact absurd hf (hnew e he).ne'
  · exact h.entries e he hf

/-- An assertion that callbacks and writes to other fields leave. -/
structure Stays (latch : Bool) (ctx : List (ℕ × Op)) (i : ℕ) (L : DWorld → Prop) : Prop where
  ask : ∀ op, Survives (turnContract latch) ctx i L op
  put : ∀ w t, L w → t.busy = w.st.busy → t.history = w.st.history → t.request = w.st.request → L (w.put t)

theorem still_stays : Stays latch ctx i (Still i xs) := by
  constructor
  · intro op w hw
    refine ⟨trivial, fun w' _ hg hr a _ => ?_⟩
    have hcall : Still i xs (w.push i (.call op)) := hw.push _
    exact (hcall.grows hg (hr hcall.busy)).push _
  · intro w t hw hb hh _
    exact ⟨hb.trans hw.busy, hh.trans hw.history, hw.entries⟩

/-- What is under way, with its request. -/
structure Before (i : ℕ) (s : Desk) (w : DWorld) : Prop extends Still i s.history w where
  request : w.st.request = s.request

theorem before_stays : Stays latch ctx i (Before i s) := by
  constructor
  · intro op w hw
    refine ⟨trivial, fun w' _ hg hr a _ => ?_⟩
    have hcall : Still i s.history (w.push i (.call op)) := hw.push _
    have hm := hr hcall.busy
    exact ⟨(hcall.grows hg hm).push _, hm.request.trans hw.request⟩
  · intro w t hw hb hh hr
    exact ⟨⟨hb.trans hw.busy, hh.trans hw.history, hw.entries⟩, hr.trans hw.request⟩

theorem keeps_expect {α : Type} (e : Exc) (o : Option α) :
    Keeps (turnContract latch) ctx i L (expect e o) (fun a => o = some a) := by
  cases o with
  | none => exact keeps_throw
  | some a => exact keeps_pure rfl

theorem keeps_bound : Keeps (turnContract latch) ctx i L bound (fun _ => True) := by
  unfold Conversation.bound
  refine (keeps_read (P := fun _ => True) fun _ _ => trivial).bind fun snapshot _ => ?_
  refine (keeps_expect _ snapshot).bind fun s _ => ?_
  refine (keeps_expect _ s.policy).bind fun p _ => ?_
  exact keeps_pure trivial

section Stays

variable (h : Stays latch ctx i L)
include h

theorem Stays.gap : Keeps (turnContract latch) ctx i L gap (fun _ => True) := by
  unfold Conversation.gap
  refine (keeps_ask (h.ask .gap)).bind fun _ _ => ?_
  exact keeps_pure trivial

theorem Stays.sample : Keeps (turnContract latch) ctx i L sample (fun _ => True) := by
  unfold Conversation.sample
  refine (keeps_ask (h.ask .snapshot)).bind fun a _ => ?_
  split
  · exact keeps_pure trivial
  · exact keeps_throw
  · exact keeps_throw

theorem Stays.check : Keeps (turnContract latch) ctx i L check (fun _ => True) := by
  unfold Conversation.check
  refine h.sample.bind fun current _ => ?_
  refine (keeps_read (P := fun _ => True) fun _ _ => trivial).bind fun d _ => ?_
  split
  · exact keeps_throw
  · exact .ite (fun _ => keeps_throw) fun _ => keeps_pure trivial

theorem Stays.invalidate (code : Code) : Keeps (turnContract latch) ctx i L (invalidate code) (fun _ => True) := by
  unfold Conversation.invalidate
  refine (keeps_write fun w hw => h.put w _ hw rfl rfl rfl).bind fun _ _ => ?_
  refine (keeps_read (P := fun _ => True) fun _ _ => trivial).bind fun d _ => ?_
  split
  · exact keeps_pure trivial
  · rename_i g _
    have howner : Keeps (turnContract latch) ctx i L (fromOwner (d.owner.cancel (some (some g)))) (fun _ => True) := by
      unfold fromOwner
      split
      · exact keeps_pure trivial
      · exact keeps_throw
    refine howner.bind fun _ _ => ?_
    exact keeps_write fun w hw => h.put w _ hw rfl rfl rfl

theorem Stays.cancelJob (j : ℕ) (clean : Bool) :
    Keeps (turnContract latch) ctx i L (cancelJob j clean) (fun _ => True) := by
  unfold Conversation.cancelJob onException
  refine Keeps.catching ?_ fun e => .ite (fun _ => keeps_fail) fun _ => keeps_pure trivial
  refine (keeps_ask (h.ask (.cancel j))).bind fun a _ => ?_
  split
  · exact keeps_fail
  · refine (keeps_ask (h.ask (.proven j))).bind fun b _ => ?_
    split
    · exact keeps_fail
    · exact keeps_pure trivial

theorem Stays.cleanup : Keeps (turnContract latch) ctx i L cleanup (fun _ => True) := by
  unfold Conversation.cleanup
  refine (keeps_read (P := fun _ => True) fun _ _ => trivial).bind fun d _ => ?_
  have hdrop : ∀ clean, Keeps (turnContract latch) ctx i L (do
      Prog.write fun d => d.drop clean
      pure clean) (fun _ => True) := by
    intro clean
    refine (keeps_write fun w hw => h.put w _ hw rfl rfl rfl).bind fun _ _ => ?_
    exact keeps_pure trivial
  dsimp only
  split
  · exact hdrop _
  · exact (h.cancelJob _ _).bind fun clean _ => hdrop clean

theorem Stays.drift : Keeps (turnContract latch) ctx i L drift (fun _ => True) := by
  unfold Conversation.drift onStop
  refine (keeps_read (P := fun _ => True) fun _ _ => trivial).bind fun snapshot _ => ?_
  refine Keeps.catching ?_ fun e => ?_
  · refine h.sample.bind fun current _ => ?_
    refine .ite (fun _ => ?_) fun _ => keeps_pure trivial
    exact h.gap.bind fun _ _ => h.invalidate _
  · split
    · exact h.gap.bind fun _ _ => h.invalidate _
    · exact keeps_fail

theorem Stays.pollJob : Keeps (turnContract latch) ctx i L pollJob (fun _ => True) := by
  unfold Conversation.pollJob
  refine (keeps_write fun w hw => h.put w _ hw rfl rfl rfl).bind fun _ _ => ?_
  refine (keeps_read (P := fun _ => True) fun _ _ => trivial).bind fun job _ => ?_
  split
  · exact keeps_throw
  · refine (keeps_ask (h.ask (.poll _))).bind fun a _ => ?_
    split
    · exact keeps_throw
    · exact keeps_throw
    · exact keeps_pure trivial

/-- The stop of a call, up to its end. -/
theorem Stays.handBack (lease : Option ℕ) (clean : Bool) :
    Keeps (turnContract latch) ctx i L (handBack lease clean) (fun _ => True) := by
  unfold Conversation.handBack
  refine (keeps_write fun w hw => h.put w _ hw rfl rfl rfl).bind fun _ _ => ?_
  split
  · exact keeps_pure trivial
  · rename_i g
    refine (keeps_read (P := fun _ => True) fun _ _ => trivial).bind fun owner _ => ?_
    have howner : Keeps (turnContract latch) ctx i L (fromOwner (owner.release (some g) (some clean))) (fun _ => True) := by
      unfold fromOwner
      split
      · exact keeps_pure trivial
      · exact keeps_throw
    refine howner.bind fun _ _ => ?_
    exact keeps_write fun w hw => h.put w _ hw rfl rfl rfl

theorem Stays.beginAgain : Keeps (turnContract latch) ctx i L beginAgain (fun _ => True) := by
  unfold Conversation.beginAgain
  refine (keeps_write fun w hw => h.put w _ hw rfl rfl rfl).bind fun _ _ => ?_
  refine h.gap.bind fun _ _ => ?_
  refine (keeps_write fun w hw => h.put w _ hw rfl rfl rfl).bind fun _ _ => ?_
  refine (keeps_read (P := fun _ => True) fun _ _ => trivial).bind fun owner _ => ?_
  split
  · exact keeps_write fun w hw => h.put w _ hw rfl rfl rfl
  · exact keeps_throw
  · exact keeps_write fun w hw => h.put w _ hw rfl rfl rfl

theorem Stays.close (clean : Bool) : Keeps (turnContract latch) ctx i L (close clean) (fun _ => True) := by
  unfold Conversation.close
  refine (keeps_read (P := fun _ => True) fun _ _ => trivial).bind fun d _ => ?_
  refine (h.handBack _ _).bind fun _ _ => ?_
  refine (keeps_write fun w hw => h.put w _ hw rfl rfl rfl).bind fun _ _ => ?_
  have hlast : Keeps (turnContract latch) ctx i L (Prog.write fun d => { d with intent := none }) (fun _ => True) :=
    keeps_write fun w hw => h.put w _ hw rfl rfl rfl
  split
  · refine (keeps_write fun w hw => h.put w _ hw rfl rfl rfl).bind fun _ _ => hlast
  · split
    · exact h.beginAgain.bind fun _ _ => hlast
    · exact hlast

end Stays

/-! ## The body of a poll -/

/-- **The exchange was published**, and no callback was made since. -/
structure After (i : ℕ) (s : Desk) (q : Request) (x : Exchange) (w : DWorld) : Prop where
  busy : w.st.busy = true
  intent : w.st.intent = none
  history : w.st.history = s.history ++ [x]
  pending : s.request = some q
  token : x.token = q.token
  entries : ∀ e ∈ w.log, e.frame = i → e.st.history = s.history

/-- What the operation of a poll leaves: nothing was published, and nothing is returned; or both. -/
inductive Polled (i : ℕ) (s : Desk) (r : Except Exc (Option Response)) (w : DWorld) : Prop where
  | silent (still : Still i s.history w) (returned : ∀ v, r = .ok v → v = none)
  | told {q : Request} {x : Exchange} {response : Response} (after : After i s q x w)
      (returned : r = .ok (some response))

theorem holds_publishing {q : Request} {x : Exchange} (h : Before i s w) (hq : s.request = some q)
    (hx : x.token = q.token) :
    Holds (turnContract latch) ctx i (publish x) (fun r w' => (r = .ok () ∧ After i s q x w') ∨
      ((∃ e, r = .error e) ∧ Still i s.history w')) w := by
  unfold publish
  refine before_stays.gap.seq h (fun _ w₁ h₁ _ => ?_) fun e w₁ h₁ => .inr ⟨⟨e, rfl⟩, h₁.toStill⟩
  rw [holds_bind, holds_read]
  dsimp only [id]
  split
  · exact .inr ⟨⟨_, rfl⟩, h₁.toStill⟩
  · rename_i hintent
    split
    · exact .inr ⟨⟨_, rfl⟩, h₁.toStill⟩
    · rw [holds_write]
      refine .inl ⟨rfl, h₁.busy, hintent, ?_, hq, hx, h₁.entries⟩
      show w₁.st.history ++ [x] = s.history ++ [x]
      rw [h₁.history]

theorem holds_concluding (h : Before i s w) (response : Response) :
    Holds (turnContract latch) ctx i (conclude response) (fun r w' => (r = .ok () ∧ ∃ q x, After i s q x w') ∨
      ((∃ e, r = .error e) ∧ Still i s.history w')) w := by
  have hfail : ∀ {e : Exc} {w' : DWorld}, Before i s w' →
      (((Except.error e : Except Exc Unit) = .ok () ∧ ∃ q x, After i s q x w') ∨
        ((∃ e', (Except.error e : Except Exc Unit) = .error e') ∧ Still i s.history w')) := by
    intro e w' h'
    exact .inr ⟨⟨e, rfl⟩, h'.toStill⟩
  unfold conclude
  refine keeps_bound.seq h (fun b w₁ h₁ _ => ?_) fun e w₁ h₁ => hfail h₁
  rw [holds_bind, holds_read]
  dsimp only [id]
  split
  · exact hfail h₁
  rename_i htoken
  refine (keeps_expect _ _).seq h₁ (fun q w₂ h₂ hq => ?_) fun e w₂ h₂ => hfail h₂
  have hpending : s.request = some q := h₁.request.symm.trans hq
  have hresponse : response.token = q.token := by
    have heq := not_not.1 htoken
    unfold Desk.pending at heq
    rw [hq] at heq
    simpa using heq
  split
  · exact hfail h₂
  refine before_stays.cleanup.seq h₂ (fun clean w₃ h₃ _ => ?_) fun e w₃ h₃ => hfail h₃
  split
  · exact hfail h₃
  refine before_stays.check.seq h₃ (fun _ w₄ h₄ _ => ?_) fun e w₄ h₄ => hfail h₄
  rw [holds_bind, holds_read]
  dsimp only
  refine (keeps_expect _ _).seq h₄ (fun q' w₅ h₅ hq' => ?_) fun e w₅ h₅ => hfail h₅
  refine (keeps_expect _ _).seq h₅ (fun x w₆ h₆ hx => ?_) fun e w₆ h₆ => hfail h₆
  have htold : x.token = q.token := by
    unfold Exchange.make at hx
    split at hx
    · cases hx
      exact hresponse
    · cases hx
  refine (holds_publishing h₆ hpending htold).mono fun r w₇ hr => ?_
  exact hr.imp (fun hdone => ⟨hdone.1, q, x, hdone.2⟩) id

theorem holds_polled (h : Before i s w) :
    Holds (turnContract latch) ctx i polling (Polled i s) w := by
  have hfail : ∀ {e : Exc} {w' : DWorld}, Before i s w' → Polled i s (.error e) w' := by
    intro e w' h'
    exact .silent h'.toStill fun v hv => by cases hv
  have hnone : ∀ {w' : DWorld}, Before i s w' → Polled i s (.ok none) w' := by
    intro w' h'
    refine .silent h'.toStill fun v hv => ?_
    cases hv
    rfl
  unfold polling
  rw [holds_bind, holds_read]
  dsimp only
  split
  · exact hnone h
  refine before_stays.check.seq h (fun _ w₁ h₁ _ => ?_) fun e w₁ h₁ => hfail h₁
  rw [holds_bind, holds_read]
  dsimp only
  split
  · exact hnone h₁
  refine before_stays.pollJob.seq h₁ (fun a w₂ h₂ _ => ?_) fun e w₂ h₂ => hfail h₂
  refine before_stays.check.seq h₂ (fun _ w₃ h₃ _ => ?_) fun e w₃ h₃ => hfail h₃
  refine keeps_bound.seq h₃ (fun b w₄ h₄ _ => ?_) fun e w₄ h₄ => hfail h₄
  split
  · rw [holds_bind, holds_read]
    dsimp only
    split
    · exact hfail h₄
    · exact hnone h₄
  · rename_i _ response
    rw [holds_bind]
    refine (holds_concluding h₄ response).mono ?_
    rintro r w₅ (⟨rfl, q, x, hafter⟩ | ⟨⟨e, rfl⟩, hstill⟩)
    · exact .told hafter rfl
    · exact .silent hstill fun v hv => by cases hv
  · exact hfail h₄

/-! ## `_run` -/

/-- What a stop leaves of a call that has published nothing. -/
structure Left (i : ℕ) (xs : List Exchange) (w : DWorld) : Prop where
  history : w.st.history = xs ∨ w.st.history = []
  entries : ∀ e ∈ w.log, e.frame = i → e.st.history = xs

theorem Still.left (h : Still i xs w) : Left i xs w := ⟨.inl h.history, h.entries⟩

theorem holds_stopping (h : Still i xs w) :
    Holds (turnContract latch) ctx i stop (fun _ w' => Left i xs w') w := by
  have hstays : Stays latch ctx i (Still i xs) := still_stays
  have hlast : ∀ clean, ∀ w₁, Still i xs w₁ → Holds (turnContract latch) ctx i (do
      Prog.write fun d => d.ask none
      gap
      close clean
      let phase ← Prog.read fun d => d.phase
      if phase ≠ .ready then Prog.write Desk.clear) (fun _ w' => Left i xs w') w₁ := by
    intro clean w₁ h₁
    rw [holds_bind, holds_write]
    have hasked : Still i xs (w₁.put (w₁.st.ask none)) := ⟨h₁.busy, h₁.history, h₁.entries⟩
    refine hstays.gap.seq hasked (fun _ w₂ h₂ _ => ?_) fun _ _ h₂ => h₂.left
    refine (hstays.close clean).seq h₂ (fun _ w₃ h₃ _ => ?_) fun _ _ h₃ => h₃.left
    rw [holds_bind, holds_read]
    dsimp only
    split
    · rw [holds_write]
      exact ⟨.inr rfl, h₃.entries⟩
    · exact h₃.left
  unfold stop
  refine (keeps_write fun w hw => hstays.put w _ hw rfl rfl rfl).seq h (fun _ w₁ h₁ _ => ?_) fun _ _ h₁ => h₁.left
  refine hstays.cleanup.seq h₁ (fun clean w₂ h₂ _ => ?_) fun _ _ h₂ => h₂.left
  refine hstays.gap.seq h₂ (fun _ w₃ h₃ _ => ?_) fun _ _ h₃ => h₃.left
  rw [holds_bind, holds_read]
  dsimp only
  split
  · exact hstays.drift.seq h₃ (fun _ w₄ h₄ _ => hlast clean w₄ h₄) fun _ _ h₄ => h₄.left
  · exact hlast clean w₃ h₃

/-- What the operation of a poll leaves to `_run`, its `_Stop` caught. -/
inductive Caught (i : ℕ) (s : Desk) (r : Except Exc (Option (Option Response))) (w : DWorld) : Prop where
  | silent (still : Still i s.history w) (returned : ∀ v, r = .ok v → v.join = none)
  | told {q : Request} {x : Exchange} {response : Response} (after : After i s q x w)
      (returned : r = .ok (some (some response)))

theorem holds_caught (h : Before i s w) :
    Holds (turnContract latch) ctx i (onStop (some <$> polling) fun code => do
      gap
      invalidate code
      pure none) (Caught i s) w := by
  unfold onStop
  rw [holds_catching]
  show Holds (turnContract latch) ctx i (polling >>= fun a => pure (some a)) _ w
  rw [holds_bind]
  refine (holds_polled h).mono fun r w₁ hpolled => ?_
  cases hpolled with
  | told hafter hr =>
    subst hr
    exact .told hafter rfl
  | silent hstill hr =>
    cases r with
    | ok v =>
      obtain rfl := hr v rfl
      refine .silent hstill fun v hv => ?_
      cases hv
      rfl
    | error e =>
      have hraised : ∀ {e : Exc} {w' : DWorld}, Still i s.history w' → Caught i s (.error e) w' := by
        intro e w' h'
        exact .silent h' fun v hv => by cases hv
      dsimp only
      split
      · rename_i _ code
        refine still_stays.gap.seq hstill (fun _ w₂ h₂ _ => ?_) fun _ _ h₂ => hraised h₂
        refine (still_stays.invalidate code).seq h₂ (fun _ w₃ h₃ _ => ?_) fun _ _ h₃ => hraised h₃
        refine .silent h₃ fun v hv => ?_
        cases hv
        rfl
      · exact hraised hstill

theorem holds_ofExcept {α β : Type} {r : Except Exc α} {f : α → β} {Q : Except Exc β → DWorld → Prop}
    (h : Q (r.map f) w) : Holds (turnContract latch) ctx i (do
      let v ← Prog.ofExcept r
      pure (f v)) Q w := by
  rw [holds_bind]
  cases r with
  | ok v => exact h
  | error e => exact h

/-- What a poll makes of what `_run` returns. -/
def respond (r : Except Exc (Option (Option Response) × Bool)) : Except Exc Value :=
  r.map fun v => .of .response (settled v).join

theorem respond_silent {r : Except Exc (Option (Option Response))} {stopped : Bool}
    (h : stopped = true ∨ ∀ v, r = .ok v → v.join = none) : ¬ Answers (respond (r.map fun v => (v, stopped))) := by
  rintro ⟨response, hr⟩
  cases r with
  | error e => cases hr
  | ok v =>
    have hnone : (settled (v, stopped)).join = none := by
      cases stopped with
      | true => rfl
      | false => exact (h.resolve_left (by simp)) v rfl
    have hvalue : Value.of Value.response (settled (v, stopped)).join = .response response := Except.ok.inj hr
    rw [hnone] at hvalue
    cases hvalue

/-- A poll that has published nothing ends silent. -/
theorem Left.ends {r : Except Exc (Option (Option Response) × Bool)} (h : Left i s.history w)
    (hr : ¬ Answers (respond r)) : Ends s (respond r) i w.log (w.st.occupy false) :=
  .silent hr h.entries h.history

theorem answers_error {e : Exc} : ¬ Answers (.error e) := by
  rintro ⟨response, hr⟩
  cases hr

/-- **`_run`**, of a poll. -/
theorem holds_running (hs : w.st = s) (he : ∀ e ∈ w.log, e.frame = i → e.st.history = s.history)
    (hn : ¬ Told s s.history) :
    Holds (turnContract latch) ctx i (run polling) (fun r w' => Ends s (respond r) i w'.log w'.st) w := by
  unfold run
  rw [holds_bind, holds_read]
  dsimp only
  split
  · refine .silent answers_error he (.inl ?_)
    rw [hs]
  have hbefore : Before i s (w.put (w.st.occupy true)) := by
    refine ⟨⟨rfl, ?_, he⟩, ?_⟩
    · rw [← hs]
      rfl
    · rw [← hs]
      rfl
  rw [holds_bind, holds_write]
  dsimp only
  rw [holds_lastly, holds_bind, holds_attempt]
  refine (holds_caught hbefore).mono fun r w₁ hcaught => ?_
  dsimp only
  cases hcaught with
  | silent hstill hr =>
    refine still_stays.gap.seq hstill (fun _ w₂ h₂ _ => ?_) fun _ _ h₂ => h₂.left.ends answers_error
    rw [holds_bind, holds_read]
    dsimp only
    split
    · rename_i hstopped
      rw [holds_bind]
      refine (holds_stopping h₂).mono fun r' w₃ h₃ => ?_
      cases r' with
      | ok _ => exact holds_ofExcept (h₃.ends (respond_silent (.inr hr)))
      | error e => exact h₃.ends answers_error
    · exact holds_ofExcept (h₂.left.ends (respond_silent (.inr hr)))
  | told hafter hr =>
    rename_i q x response
    subst hr
    unfold gap
    rw [holds_bind, holds_bind, holds_ask]
    refine ⟨trivial, fun w₂ _ hg hrel a _ => ?_⟩
    have hm : Moves w₁.st w₂.st := hrel hafter.busy
    have htold : ∀ d : Desk, d.history = w₁.st.history → Told s d.history := by
      intro d hd
      refine ⟨q, x, hafter.pending, ?_, hafter.token⟩
      rw [hd, hafter.history]
      exact List.mem_append_right _ (List.mem_singleton_self x)
    rw [holds_pure]
    dsimp only
    rw [holds_bind, holds_read]
    dsimp only
    split
    · -- the answer of the moment is the entry that shows the cancellation
      rename_i hstopped
      have hstruck : ∀ {w₃ : DWorld}, Extends i (w₂.push i (.reply .gap a)) w₃ → Struck s i w₃.log := by
        rintro w₃ ⟨-, new, hl, -⟩
        refine ⟨⟨i, .reply .gap a, w₂.st⟩, ?_, rfl, htold w₂.st hm.history, ?_⟩
        · rw [hl]
          exact List.mem_append_right _ (List.mem_cons_self ..)
        · exact Option.isSome_iff_ne_none.1 hstopped
      rw [holds_bind]
      refine (Holds.extends (holds_any (Q := fun _ _ => True) fun _ _ => trivial)).mono ?_
      rintro r' w₃ ⟨-, hextends⟩
      cases r' with
      | ok _ => exact holds_ofExcept (.struck (respond_silent (.inl hstopped)) (hstruck hextends))
      | error e => exact .struck answers_error (hstruck hextends)
    · rename_i hgoes
      have hintent : w₂.st.intent = none := by simpa using hgoes
      refine holds_ofExcept ?_
      show Ends s (respond (.ok (some (some response), w₂.st.intent.isSome))) i _ _
      rw [hintent]
      refine .told ⟨response, rfl⟩ (htold _ hm.history) ⟨_, List.mem_cons_self .., rfl, htold _ hm.history⟩ ?_
      rintro ⟨e, hmem, hf, ht, hi⟩
      obtain ⟨-, new, hl, hnew⟩ := hg
      simp only [World.push_log, World.put_log, hl, List.mem_cons, List.mem_append] at hmem
      rcases hmem with rfl | hmem | rfl | hmem
      · exact hi hintent
      · exact absurd hf (hnew e hmem).ne'
      · exact hi hafter.intent
      · rw [hafter.entries e hmem hf] at ht
        exact hn ht

/-- **`poll`.** -/
theorem holds_poll_ends (hs : w.st = s) (he : ∀ e ∈ w.log, e.frame = i → e.st.history = s.history)
    (hn : ¬ Told s s.history) :
    Holds (turnContract latch) ctx i poll (fun r w' => Ends s r i w'.log w'.st) w := by
  unfold poll
  rw [holds_bind]
  refine (holds_running hs he hn).mono fun r w' hends => ?_
  cases r with
  | ok v => exact hends
  | error e => exact hends

/-! ## Over whole runs -/

/-- What a call of `poll` owes. -/
def Reports (m : Method) (s : Desk) (r : Except Exc Value) (i : ℕ) (older : List DEntry) (d : Desk) : Prop :=
  m = .poll → (Reported s r i older d ↔ ¬ Struck s i older)

/-- The turn that is pending is not in the history. -/
theorem untold {sid : Option String} {snapshot : Option Snapshot} {turn : ℕ}
    (h : Bounds snapshot sid s.request s.history turn) : ¬ Told s s.history := by
  rintro ⟨q, x, hq, hx, htoken⟩
  obtain ⟨-, hturn, -, hlt, -⟩ := h.request q hq
  have hbefore := hlt x hx
  rw [htoken, hturn] at hbefore
  exact lt_irrefl turn hbefore

theorem reports_kept (latch : Bool) : ((deskContract latch).owing Reports).Kept := by
  refine (desk_kept latch).owing turnContract_weaker fun ctx m w _ hlog hinv => ?_
  by_cases hm : m = .poll
  · subst hm
    have hentries : ∀ e ∈ (w.enter .poll).log, e.frame = w.next → e.st.history = w.st.history := by
      intro e he hf
      rcases List.mem_cons.1 he with rfl | he
      · rfl
      · exact absurd hf (hlog e he).ne
    have huntold : ¬ Told w.st w.st.history := untold hinv.bounds
    refine (holds_poll_ends rfl hentries huntold).mono fun r w' hends _ => ?_
    exact hends.reported huntold
  · exact holds_any fun _ _ hpoll => absurd hpoll hm

/-- **A poll reports its turn as the history does, if and only if no cancellation strikes between the publication and
its end.** -/
theorem poll_reports {sid : String} {cfg : DConfig} (h : (conversation latch).Reachable (.new sid) cfg)
    {newer older : List DEntry} {e c : DEntry} (hlog : cfg.w.log = newer ++ e :: older) {r : Except Exc Value}
    (hr : e.act = .ret r) (hc : c ∈ older) (hf : c.frame = e.frame) (hpoll : c.act = .invoke .poll) :
    Reported c.st r e.frame older e.st ↔ ¬ Struck c.st e.frame older :=
  Contract.returns (reports_kept latch) (DInv.new latch sid) h hlog r hr c hc hf .poll hpoll rfl

/-! ### Two runs -/

/-- The last entry returns from a poll whose turn is in the history that it leaves, with a response or without. -/
def keeps (answered : Bool) (cfg : DConfig) : Bool :=
  match cfg.w.log with
  | ⟨i, .ret (.ok (.response _)), d⟩ :: older => answered && older.any (polled i d)
  | ⟨i, .ret (.ok .none), d⟩ :: older => !answered && older.any (polled i d)
  | _ => false
where
  /-- The call of a poll, of a turn that is in a history. -/
  polled (i : ℕ) (d : Desk) (m : DEntry) : Bool :=
    m.frame = i && (match m.act with
      | .invoke .poll => true
      | _ => false) && m.st.request.any fun q => d.history.any fun x => x.token = q.token

theorem of_polled {d : Desk} {m : DEntry} (h : keeps.polled i d m = true) :
    m.frame = i ∧ m.act = .invoke .poll ∧ Told m.st d.history := by
  unfold keeps.polled at h
  simp only [Bool.and_eq_true, decide_eq_true_eq] at h
  obtain ⟨⟨hf, hact⟩, htold⟩ := h
  refine ⟨hf, ?_, ?_⟩
  · split at hact
    · assumption
    · cases hact
  · obtain ⟨q, hq, hany⟩ := (Option.any_eq_true _ _).1 htold
    obtain ⟨x, hx, htoken⟩ := List.any_eq_true.1 hany
    exact ⟨q, x, hq, hx, of_decide_eq_true htoken⟩

/-- What the test finds. -/
theorem of_keeps {answered : Bool} {cfg : DConfig} (h : keeps answered cfg = true) :
    ∃ e m older r, cfg.w.log = e :: older ∧ e.act = .ret r ∧ m ∈ older ∧ m.frame = e.frame ∧
      m.act = .invoke .poll ∧ Told m.st e.st.history ∧ (Answers r ↔ answered = true) := by
  unfold keeps at h
  split at h
  · rename_i i response d older hlog
    obtain ⟨ha, hany⟩ := Bool.and_eq_true_iff.1 h
    obtain ⟨m, hm, hpolled⟩ := List.any_eq_true.1 hany
    obtain ⟨hf, hact, htold⟩ := of_polled hpolled
    exact ⟨_, m, older, _, hlog, rfl, hm, hf, hact, htold, fun _ => ha, fun _ => ⟨response, rfl⟩⟩
  · rename_i i d older hlog
    obtain ⟨ha, hany⟩ := Bool.and_eq_true_iff.1 h
    obtain ⟨m, hm, hpolled⟩ := List.any_eq_true.1 hany
    obtain ⟨hf, hact, htold⟩ := of_polled hpolled
    refine ⟨_, m, older, _, hlog, rfl, hm, hf, hact, htold, ?_, ?_⟩
    · rintro ⟨response, hr⟩
      cases hr
    · intro hanswered
      rw [hanswered] at ha
      cases ha
  · cases h

/-- A turn that is reported. -/
theorem poll_reports_answered :
    ∃ (cfg : DConfig) (e c : DEntry) (older : List DEntry) (r : Except Exc Value),
      (conversation true).Reachable (.new "s") cfg ∧ cfg.w.log = e :: older ∧ e.act = .ret r ∧ c ∈ older ∧
        c.frame = e.frame ∧ c.act = .invoke .poll ∧ Answers r ∧ Told c.st e.st.history ∧
          (Reported c.st r e.frame older e.st ↔ ¬ Struck c.st e.frame older) := by
  obtain ⟨cfg, hcfg, ht⟩ := Machine.Reachable.of_run (conversation true) (.new "s") Example.answered (keeps true)
    (by decide +kernel)
  obtain ⟨e, c, older, r, hlog, hr, hc, hf, hpoll, htold, hanswers⟩ := of_keeps ht
  have hlast : cfg.w.log = [] ++ e :: older := hlog
  exact ⟨cfg, e, c, older, r, hcfg, hlog, hr, hc, hf, hpoll, hanswers.2 rfl, htold,
    poll_reports hcfg hlast hr hc hf hpoll⟩

/-- A turn whose exchange is published, and that is canceled by another thread before its poll is over. The conversation
begins again. -/
def Example.struck : List (Input Answer Method) :=
  Example.asked ++ [Input.invoke Method.poll, Example.sampled,
    .reply (.response ⟨⟨"s:1", 1, 1, "profile", 1, 1, 1⟩, "hi"⟩), Example.sampled, .reply .object, .reply .true,
    Example.sampled] ++ Example.pause 1 ++ [Input.invoke (Method.look .canceled), .invoke (.strike .canceled)] ++
    Example.pause 2 ++ [Example.sampled] ++ Example.pause 2

/-- **A report is revoked**: a poll returns nothing, and leaves the exchange of its turn in the history. -/
theorem report_revoked :
    ¬ ∀ (cfg : DConfig) (e c : DEntry) (older : List DEntry) (r : Except Exc Value),
      (conversation false).Reachable (.new "s") cfg → cfg.w.log = e :: older → e.act = .ret r → c ∈ older →
        c.frame = e.frame → c.act = .invoke .poll → (Answers r ↔ Told c.st e.st.history) := by
  intro hall
  obtain ⟨cfg, hcfg, ht⟩ := Machine.Reachable.of_run (conversation false) (.new "s") Example.struck (keeps false)
    (by decide +kernel)
  obtain ⟨e, c, older, r, hlog, hr, hc, hf, hpoll, htold, hanswers⟩ := of_keeps ht
  have hanswered := (hall cfg e c older r hcfg hlog hr hc hf hpoll).2 htold
  have hfalse := hanswers.1 hanswered
  cases hfalse

end Conversation

end Arhugula
