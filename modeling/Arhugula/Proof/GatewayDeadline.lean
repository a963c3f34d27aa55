import Arhugula.Proof.GatewayClock

/-!
# The attempts of a gateway call, and its deadline

The bodies of a method keep what the client knows of its call (`Core`), between its callbacks and at its end. A call
whose clock failed is not worth a fallback or a success (`Worth`), so that it ends, unless a callback raised what no
handler catches: `Rest` is what every method leaves.
-/

namespace Arhugula

namespace Gateway

namespace Deadline

open Reentrant Providers

variable {digest : Manifest → String} {codec : Codec} {ctx : List (ℕ × Op)} {i : ℕ} {op : Op} {a : Answer}
  {w w' : GWorld digest} {log : List (GEntry digest)} {e : GEntry digest} {id : String} {c c' : Call}

/-! ## The contract -/

/-- The budget that an attempt is given. -/
def grant : Op → Option ℤ
  | .hostBegin _ outgoing => some outgoing.budgetMs
  | .localBegin _ _ budgetMs => some budgetMs
  | _ => none

/-- **Where an attempt is begun**: its budget is what the call has left. -/
def Granted (codec : Codec) (s : Sys digest) (log : List (GEntry digest)) (budgetMs : ℤ) : Prop :=
  ∃ c last d, s.client.active = some c ∧ c.lastTime = some last ∧ c.deadline = some d ∧ budgetMs = d - last ∧
    last < d ∧ Due codec c.request.requestId log

/-- What is known of each entry. -/
def Noted (codec : Codec) (e : GEntry digest) (older : List (GEntry digest)) : Prop :=
  Core codec older e.st ∧ ∀ op b, e.act = .call op → grant op = some b → Granted codec e.st older b

/-- **The invariant.** -/
structure Kept (codec : Codec) (w : GWorld digest) : Prop where
  core : Core codec w.log w.st
  past : Throughout (Noted codec) w.log
  clean : w.st.client.insideCallback = false → ∀ c, w.st.client.active = some c → Clean c.request.requestId w.log

/-- **The contract.** -/
def deadlineContract (codec : Codec) : Contract (gateway codec digest) where
  Inv w := Kept codec w
  Rel _ a b := b.st.client.insideCallback = a.st.client.insideCallback ∧
    (a.st.client.insideCallback = true → Passing a b)
  refl _ w := ⟨rfl, fun _ => .refl w⟩
  trans := by
    rintro ctx a b c ⟨hab, hp⟩ ⟨hbc, hp'⟩
    exact ⟨hbc.trans hab, fun hin => (hp hin).trans (hp' (hab.trans hin))⟩

/-- **What is known between the callbacks of a method.** -/
structure At (codec : Codec) (w : GWorld digest) : Prop where
  core : Core codec w.log w.st
  past : Throughout (Noted codec) w.log
  outside : w.st.client.insideCallback = false

/-- A method works on the active call. -/
structure Works (codec : Codec) (w : GWorld digest) (c : Call) : Prop extends At codec w where
  active : w.st.client.active = some c

/-- **What every method leaves.** -/
structure Rest (codec : Codec) (w : GWorld digest) : Prop extends At codec w where
  clean : ∀ c, w.st.client.active = some c → Clean c.request.requestId w.log

theorem Kept.rest (h : Kept codec w) (hin : w.st.client.insideCallback = false) : Rest codec w :=
  ⟨⟨h.core, h.past, hin⟩, h.clean hin⟩

theorem Rest.kept (h : Rest codec w) : Kept codec w := ⟨h.core, h.past, fun _ => h.clean⟩

/-- Where a callback raised what is no `Exception`, nothing is owed. -/
theorem At.broken (h : At codec w) (hd : Disturbed w.log) : Rest codec w := ⟨h, fun _ _ hn => absurd hd hn⟩

/-- A change of the client that leaves its call alone. -/
theorem At.same {s : Sys digest} (h : At codec w) (ha : s.client.active = w.st.client.active)
    (hh : s.client.history = w.st.client.history) (ht : ∀ id t, .stored id t ∈ s.trail → .stored id t ∈ w.st.trail)
    (hi : s.client.insideCallback = w.st.client.insideCallback) : At codec (w.put s) :=
  ⟨h.core.same ha hh ht, h.past, hi.trans h.outside⟩

theorem Works.same {s : Sys digest} (h : Works codec w c) (ha : s.client.active = w.st.client.active)
    (hh : s.client.history = w.st.client.history) (ht : ∀ id t, .stored id t ∈ s.trail → .stored id t ∈ w.st.trail)
    (hi : s.client.insideCallback = w.st.client.insideCallback) : Works codec (w.put s) c :=
  ⟨h.toAt.same ha hh ht hi, ha.trans h.active⟩

theorem Rest.same {s : Sys digest} (h : Rest codec w) (ha : s.client.active = w.st.client.active)
    (hh : s.client.history = w.st.client.history) (ht : ∀ id t, .stored id t ∈ s.trail → .stored id t ∈ w.st.trail)
    (hi : s.client.insideCallback = w.st.client.insideCallback) : Rest codec (w.put s) :=
  ⟨h.toAt.same ha hh ht hi, fun c hc => h.clean c (ha ▸ hc)⟩

/-- A change of the active call. -/
theorem Works.change {f : Call → Call} (h : Works codec w c) (hf : Kin c (f c)) :
    Works codec (w.put (w.st.onClient (.change f))) (f c) := by
  refine ⟨⟨h.core.put rfl (fun c₁ hc₁ => ?_) rfl fun _ _ hm => hm, h.past, h.outside⟩, ?_⟩
  · obtain rfl : c = c₁ := Option.some_inj.1 (h.active.symm.trans hc₁)
    exact hf
  · show w.st.client.active.map f = _
    rw [h.active]
    rfl

/-! ## Callbacks -/

theorem disturbed_mono {log' : List (GEntry digest)} (h : Disturbed log) (hl : ∀ e ∈ log, e ∈ log') : Disturbed log' := by
  obtain ⟨e, he, hx⟩ := h
  exact ⟨e, hl e he, hx⟩

theorem fails_passive {new : List (GEntry digest)} (h : ∀ e ∈ new, Passive e.act = true) (id : String) :
    fails id (new ++ log) = fails id log := by
  induction new with
  | nil => rfl
  | cons e new ih =>
    rw [List.cons_append, fails_silent]
    · exact ih fun e' he' => h e' (List.mem_cons_of_mem _ he')
    · intro a ha
      have hp := h e List.mem_cons_self
      rw [ha] at hp
      cases hp

/-- **After a callback**, before its answer is looked at. -/
structure Told (codec : Codec) (i : ℕ) (op : Op) (a : Answer) (w w' : GWorld digest) : Prop where
  split : ∃ rest s, w'.log = ⟨i, .reply op a, s⟩ :: rest ∧ w'.st = s.onClient (.inside false) ∧ Core codec rest s ∧
    Throughout (Noted codec) rest ∧ (∀ id, fails id rest = fails id w.log) ∧ ∀ e ∈ w.log, e ∈ rest
  flags : ∃ d x, w'.st = w.st.onClient (.flag d x)

/-- **`_invoke`.** -/
theorem holds_invoked {Q : Except Exc Answer → GWorld digest → Prop} (h : At codec w)
    (hb : ∀ b, grant op = some b → Granted codec w.st w.log b) (hQ : ∀ a w', Told codec i op a w w' → Q a.outcome w') :
    Holds (deadlineContract codec) ctx i (invoke op) Q w := by
  unfold invoke
  rw [holds_bind, holds_write]
  dsimp only
  rw [holds_bind, holds_ask]
  have hcore : Core codec w.log (w.st.onClient (.inside true)) := h.core.same rfl rfl fun _ _ hm => hm
  have hpush : Kept codec ((w.put (w.st.onClient (.inside true))).push i (.call op)) := by
    refine ⟨hcore.push (fun _ _ hx => by cases hx) fun hr => ?_, ⟨⟨hcore, fun op' b hop hgrant => ?_⟩, h.past⟩,
      fun hout => by cases hout⟩
    · rcases hr with hr | ⟨_, hr, -⟩ <;> cases hr
    · cases hop
      obtain ⟨c, last, d, hc, hlast, hd, hx⟩ := hb b hgrant
      exact ⟨c, last, d, hc, hlast, hd, hx⟩
  refine ⟨hpush, fun w₁ hinv hgrow hrel a ha => ?_⟩
  dsimp only
  rw [holds_bind, holds_write]
  obtain ⟨⟨d, x, hst⟩, new, hlog, hpassive, -⟩ := hrel.2 rfl
  have hlater : Told codec i op a w
      ((w₁.push i (.reply op a)).put ((w₁.push i (.reply op a)).st.onClient (.inside false))) := by
    refine ⟨⟨w₁.log, w₁.st, rfl, rfl, hinv.core, hinv.past, fun id => ?_, fun e he => ?_⟩, d, x, ?_⟩
    · rw [hlog, fails_passive hpassive]
      exact fails_silent fun a hx => by cases hx
    · rw [hlog]
      exact List.mem_append_right _ (List.mem_cons_of_mem _ he)
    · show w₁.st.onClient (.inside false) = _
      rw [hst]
      exact onClient_inside h.outside d x
  have hdone := hQ a _ hlater
  cases a <;> exact hdone

theorem Told.disturbed (h : Told codec i op (.raised .interrupt) w w') : Disturbed w'.log := by
  obtain ⟨rest, s, hlog, -⟩ := h.split
  rw [hlog]
  exact ⟨_, List.mem_cons_self, op, rfl⟩

/-- An answer of another callback than the clock, or one that is no reading. -/
theorem Told.at (h : Told codec i op a w w') (hout : w.st.client.insideCallback = false)
    (hx : ∀ now c, op = .clock → a = .time now → w'.st.client.active = some c → misread c.lastTime a = true) :
    At codec w' := by
  obtain ⟨⟨rest, s, hlog, hst, hcore, hpast, -⟩, d, x, hflag⟩ := h
  refine ⟨?_, ?_, ?_⟩
  · have hpush : Core codec (⟨i, .reply op a, s⟩ :: rest) s := by
      refine hcore.push (fun now c hact hc => ?_) fun hr => ?_
      · cases hact
        exact hx now c rfl rfl (by rw [hst]; exact hc)
      · rcases hr with hr | ⟨_, hr, -⟩ <;> cases hr
    rw [hlog, hst]
    exact hpush.same rfl rfl fun _ _ hm => hm
  · rw [hlog]
    exact ⟨⟨hcore, fun op' b hop _ => by cases hop⟩, hpast⟩
  · rw [hflag]
    exact hout

/-- What was clean stays so, unless a reading failed. -/
theorem Told.clean (h : Told codec i op a w w') (hop : op ≠ .clock) (hc : Clean id w.log) : Clean id w'.log := by
  obtain ⟨⟨rest, s, hlog, -, -, -, hfails, hmem⟩, -⟩ := h
  intro hd
  rw [hlog] at hd ⊢
  rw [fails_silent (fun a' hx => by cases hx; exact hop rfl), hfails]
  exact hc fun hn => hd (Disturbed.cons (disturbed_mono hn hmem))

/-- The same attempt: only its times and the wish to cancel it may be new. -/
structure Goes (codec : Codec) (w : GWorld digest) (c : Call) (w' : GWorld digest) (c' : Call) : Prop
    extends Works codec w' c' where
  same : SameCall c c'
  clean : Clean c.request.requestId w.log → Clean c.request.requestId w'.log

/-- **A callback other than the clock.** -/
theorem holds_other {Q : Except Exc Answer → GWorld digest → Prop} (h : Works codec w c) (hop : op ≠ .clock)
    (hb : ∀ b, grant op = some b → Granted codec w.st w.log b)
    (hQ : ∀ (a : Answer) w' c', a ≠ .raised .interrupt → Goes codec w c w' c' → c'.lastTime = c.lastTime →
      c'.deadline = c.deadline → Q a.outcome w')
    (herr : ∀ w', Rest codec w' → Q (.error .interrupt) w') :
    Holds (deadlineContract codec) ctx i (invoke op) Q w := by
  refine holds_invoked h.toAt hb fun a w' ht => ?_
  have hat : At codec w' := ht.at h.outside fun _ _ heq => absurd heq hop
  by_cases ha : a = .raised .interrupt
  · subst ha
    exact herr w' (hat.broken ht.disturbed)
  · obtain ⟨d, x, hst⟩ := ht.flags
    refine hQ a w' { c with cancelRequested := c.cancelRequested || x } ha ⟨⟨hat, ?_⟩, ⟨rfl, rfl, rfl, rfl⟩, ht.clean hop⟩
      rfl rfl
    rw [hst]
    exact Client.flag_active h.active

/-! ## The clock -/

theorem holds_activeCall {Q : Except Exc Call → GWorld digest → Prop} (h : w.st.client.active = some c)
    (hQ : Q (.ok c) w) : Holds (deadlineContract codec) ctx i activeCall Q w := by
  unfold activeCall
  rw [holds_bind, holds_read]
  dsimp only
  rw [h]
  exact hQ

/-- How `_interruption` ends. -/
def Interrupted (codec : Codec) (w : GWorld digest) (c : Call) (r : Except Exc (Option Code)) (w' : GWorld digest) : Prop :=
  match r with
  | .ok none => ∃ c', Goes codec w c w' c' ∧ InTime c' ∧ c'.cancelRequested = false
  | .ok (some code) => ∃ c', Works codec w' c' ∧ SameCall c c' ∧
      (fallsBack code = true → Clean c.request.requestId w.log → Clean c.request.requestId w'.log)
  | .error _ => Rest codec w'

/-- **`_interruption`.** -/
theorem holds_interruption (h : Works codec w c) :
    Holds (deadlineContract codec) ctx i interruption (Interrupted codec w c) w := by
  unfold interruption readClock onException
  rw [holds_bind, holds_catching, holds_bind]
  refine holds_invoked h.toAt (fun b hb => by cases hb) fun a w₁ ht => ?_
  obtain ⟨d, x, hflag⟩ := ht.flags
  obtain ⟨c₁, hc₁⟩ : ∃ c₁, c₁ = { c with cancelRequested := c.cancelRequested || x } := ⟨_, rfl⟩
  have hsame : SameCall c c₁ := by
    rw [hc₁]
    exact ⟨rfl, rfl, rfl, rfl⟩
  have hactive : w₁.st.client.active = some c₁ := by
    rw [hflag, hc₁]
    exact Client.flag_active h.active
  -- a reading that failed is recorded, and the call ends
  have hfail : (∀ now, a = .time now → misread c₁.lastTime a = true) →
      Holds (deadlineContract codec) ctx i (do
        Prog.write (Sys.onClient (Client.latch .clock))
        pure (some .clock)) (Interrupted codec w c) w₁ := by
    intro hmis
    rw [holds_bind, holds_write]
    have hat : At codec w₁ := ht.at h.outside fun now c₂ _ ha hc₂ => by
      obtain rfl : c₁ = c₂ := Option.some_inj.1 (hactive.symm.trans hc₂)
      exact hmis now ha
    have hworks : Works codec w₁ c₁ := ⟨hat, hactive⟩
    exact ⟨c₁, hworks.same rfl rfl (fun _ _ hm => hm) rfl, hsame, fun hcode => by cases hcode⟩
  cases a with
  | raised e =>
    show Holds _ ctx i (if e = .interrupt then .fail e else pure none) _ w₁
    by_cases he : e = .interrupt
    · subst he
      rw [if_pos rfl]
      exact (ht.at h.outside fun _ _ _ ha => by cases ha).broken ht.disturbed
    · rw [if_neg he]
      exact hfail fun now ha => by cases ha
  | time now =>
    show Holds _ ctx i (activeCall >>= _) _ w₁
    rw [holds_bind]
    refine holds_activeCall hactive ?_
    dsimp only
    by_cases hmis : misread c₁.lastTime (.time now) = true
    · rw [if_pos (show (decide (now < 0) || c₁.lastTime.any fun t => decide (now < t)) = true from hmis)]
      exact hfail fun now' ha => by cases ha; exact hmis
    · rw [if_neg (show ¬ (decide (now < 0) || c₁.lastTime.any fun t => decide (now < t)) = true from hmis)]
      have hgood : misread c₁.lastTime (.time now) = false := by simpa using hmis
      -- the time is taken
      have hticked : Goes codec w c (w₁.put (w₁.st.onClient (.change (.tick now)))) (c₁.tick now) := by
        obtain ⟨⟨rest, s, hlog, hst, hcore, hpast, hfails, hmem⟩, -⟩ := ht
        have hact : s.client.active = some c₁ := by
          have hact₁ := hactive
          rw [hst] at hact₁
          exact hact₁
        have hput : (w₁.st.onClient (.change (.tick now))).client.active = some (c₁.tick now) := by
          show w₁.st.client.active.map _ = _
          rw [hactive]
          rfl
        refine ⟨⟨⟨?_, ?_, ?_⟩, hput⟩, hsame.trans ⟨rfl, rfl, rfl, rfl⟩, fun hclean hd => ?_⟩
        · rw [World.put_log, hlog]
          refine hcore.told hact hgood hput ?_ fun id t hm => ?_
          · rw [hst]
            rfl
          · rw [hst] at hm
            exact hm
        · rw [World.put_log, hlog]
          exact ⟨⟨hcore, fun op' b hop _ => by cases hop⟩, hpast⟩
        · rw [hflag]
          exact h.outside
        · rw [World.put_log, hlog] at hd ⊢
          have hid : c₁.request.requestId = c.request.requestId := congrArg Request.requestId hsame.request
          have hlast : misread (readings c.request.requestId rest).head? (.time now) = false := by
            rw [← hid, ← (hcore.timed c₁ hact).last]
            exact hgood
          show (fails c.request.requestId rest || (during c.request.requestId s &&
            misread (readings c.request.requestId rest).head? (.time now))) = false
          rw [hlast, Bool.and_false, Bool.or_false, hfails]
          exact hclean fun hn => hd (Disturbed.cons (disturbed_mono hn hmem))
      show Holds _ ctx i (Prog.write _ >>= _) _ w₁
      rw [holds_bind, holds_write]
      dsimp only
      rw [holds_bind]
      refine holds_activeCall hticked.active ?_
      dsimp only
      split
      · exact ⟨_, hticked.toWorks, hticked.same, fun _ => hticked.clean⟩
      · rename_i hcancel
        split
        · exact ⟨_, hticked.toWorks, hticked.same, fun _ => hticked.clean⟩
        · rename_i hleft
          have hpos : ¬ c₁.deadline.getD (now + c₁.request.budgetMs) - now ≤ 0 := hleft
          refine ⟨_, hticked, ⟨now, c₁.deadline.getD (now + c₁.request.budgetMs), rfl, rfl, by omega⟩, ?_⟩
          simpa using hcancel
  | _ => exact hfail fun now ha => by cases ha

/-! ## The end of an attempt -/

/-- A value after which the call may fall back, or succeed. -/
def Worth : Value → Bool
  | .failure f => fallsBack f.code
  | .output _ => true

/-- `fin` ends an attempt. -/
def Finishes (codec : Codec) (ctx : List (ℕ × Op)) (i : ℕ) (fin : Value → GM digest Unit) : Prop :=
  ∀ w c v, Works codec w c → (Worth v = true → Clean c.request.requestId w.log) →
    Holds (deadlineContract codec) ctx i (fin v) (fun _ w' => Rest codec w') w

/-- `again` begins an attempt. -/
def Begins (codec : Codec) (ctx : List (ℕ × Op)) (i : ℕ) (again : GM digest Unit) : Prop :=
  ∀ w c, Works codec w c → Clean c.request.requestId w.log →
    Holds (deadlineContract codec) ctx i again (fun _ w' => Rest codec w') w

/-- A terminal is stored. -/
theorem Works.store (h : Works codec w c) (t : Terminal) (ht : t.succeeded.isSome → Due codec c.request.requestId w.log) :
    Rest codec (w.put (w.st.store c.request.requestId t)) :=
  ⟨⟨h.core.store h.active t ht, h.past, h.outside⟩, fun c' hc' => by cases hc'⟩

/-- **`_finish`, for a call that was cleaned up.** -/
theorem holds_conclude {again : GM digest Unit} {v : Value} {interrupted : Option Code} (hagain : Begins codec ctx i again)
    (h : Works codec w c) (hdue : Worth v = true → interrupted = none → Due codec c.request.requestId w.log)
    (hout : ∀ o, v = .output o → interrupted = none) :
    Holds (deadlineContract codec) ctx i (conclude again v interrupted) (fun _ w' => Rest codec w') w := by
  have hfailed : ∀ failures, Rest codec (w.put (w.st.store c.request.requestId (.failed failures))) :=
    fun failures => h.store _ fun hsome => by cases hsome
  unfold conclude
  rw [holds_bind]
  refine holds_activeCall h.active ?_
  dsimp only
  cases v with
  | output o =>
    dsimp only
    rw [holds_write]
    exact h.store _ fun _ => hdue rfl (hout o rfl)
  | failure f =>
    dsimp only
    rw [holds_bind, holds_read]
    dsimp only
    split
    · rename_i k l _ _
      split
      · rename_i hfall
        rw [Bool.and_eq_true, Option.isNone_iff_eq_none] at hfall
        have hd := hdue hfall.2 hfall.1
        show Holds _ ctx i (Prog.write _ >>= _) _ w
        rw [holds_bind, holds_write]
        refine hagain _ { c with primary := some f, route := .vm l } ⟨⟨h.core.fall h.active f l hd, h.past, h.outside⟩, ?_⟩
          hd.clean
        show w.st.client.active.map _ = _
        rw [h.active]
        rfl
      · rw [holds_write]
        exact hfailed _
    · rw [holds_write]
      exact hfailed _

/-- **`_finish`, where cleanup is not proven.** -/
theorem holds_abandon {v : Value} (h : Works codec w c) :
    Holds (deadlineContract codec) ctx i (abandon v) (fun _ w' => Rest codec w') w := by
  unfold abandon
  rw [holds_bind]
  refine holds_activeCall h.active ?_
  dsimp only
  rw [holds_bind, holds_write]
  dsimp only
  rw [holds_write]
  have hlatched : Works codec (w.put (w.st.onClient (.latch .cleanup))) c := h.same rfl rfl (fun _ _ hm => hm) rfl
  exact hlatched.store _ fun hsome => by cases hsome

/-- The job is canceled. -/
theorem holds_proof {j : ℕ} (h : Works codec w c) :
    Holds (deadlineContract codec) ctx i
      (onException
        (do match ← invoke (.cancel j) with
            | .truth b => pure b
            | _ => pure false)
        (pure false))
      (fun r w' => match r with
        | .ok _ => ∃ c', Goes codec w c w' c'
        | .error _ => Rest codec w') w := by
  unfold onException
  rw [holds_catching, holds_bind]
  refine holds_other h (by simp) (fun b hb => by cases hb) (fun a w' c' ha g _ _ => ?_) fun w' hr => hr
  cases a with
  | raised e =>
    show Holds _ ctx i (if e = .interrupt then .fail e else pure false) _ w'
    rw [if_neg fun he => ha (by rw [he])]
    exact ⟨c', g⟩
  | truth t => cases t <;> exact ⟨c', g⟩
  | _ => exact ⟨c', g⟩

/-- **`_retire`** leaves the call with its times. -/
theorem holds_retire (h : Works codec w c) :
    Holds (deadlineContract codec) ctx i retire
      (fun r w' => match r with
        | .ok _ => ∃ c', Works codec w' c' ∧ c'.request = c.request ∧
            (Clean c.request.requestId w.log → Clean c.request.requestId w'.log)
        | .error _ => Rest codec w') w := by
  have hidle := h.change (f := fun c => { c with job := none }) ⟨rfl, fun _ => rfl, rfl, rfl, fun hc => hc, rfl⟩
  unfold retire
  rw [holds_bind]
  refine holds_activeCall h.active ?_
  show Holds _ ctx i (Prog.write _ >>= _) _ w
  rw [holds_bind, holds_write]
  dsimp only
  cases c.job with
  | none => exact ⟨_, hidle, rfl, fun hc => hc⟩
  | some j =>
    dsimp only
    rw [holds_bind]
    refine (holds_proof hidle).mono fun r w' hr => ?_
    cases r with
    | error e => exact hr
    | ok proven =>
      obtain ⟨c', g⟩ := hr
      show Holds _ ctx i (Prog.write _ >>= _) _ w'
      rw [holds_bind, holds_write]
      exact ⟨c', g.toWorks.same rfl rfl (fun _ _ hm => hm) rfl, g.same.request, g.clean⟩

/-- **`_finish`.** -/
theorem holds_settle {again : GM digest Unit} (hagain : Begins codec ctx i again) :
    Finishes codec ctx i (settle again) := by
  intro w c v h hclean
  unfold settle
  rw [holds_bind]
  refine holds_activeCall h.active ?_
  dsimp only
  rw [holds_bind, holds_write]
  dsimp only
  have hmarked : Works codec (w.put (w.st.mark (.finishing c.request.requestId v))) c :=
    h.same rfl rfl (fun id t hm => by simpa [Sys.mark] using hm) rfl
  rw [holds_bind]
  refine (holds_retire hmarked).mono fun r w₁ hr => ?_
  cases r with
  | error e => exact hr
  | ok proven =>
    obtain ⟨c₁, h₁, hreq₁, hclean₁⟩ := hr
    dsimp only
    rw [holds_bind, holds_write]
    dsimp only
    rw [holds_bind]
    have hsoiled : Works codec (w₁.put (w₁.st.onClient (.soil (!(proven && !v.isCleanup))))) c₁ :=
      h₁.same rfl rfl (fun _ _ hm => hm) rfl
    refine (holds_interruption hsoiled).mono fun r w₂ hr => ?_
    cases r with
    | error e => exact hr
    | ok interrupted =>
      cases interrupted with
      | none =>
        -- the call has time left: it may fall back, or succeed
        obtain ⟨c₂, g, htime, hwanted⟩ := hr
        dsimp only
        rw [holds_bind]
        refine holds_activeCall g.active ?_
        dsimp only
        split
        · refine holds_conclude hagain g.toWorks (fun hworth _ => ?_) fun _ _ => rfl
          refine g.core.due g.active htime hwanted ?_
          have hid : c₁.request.requestId = c.request.requestId := congrArg Request.requestId hreq₁
          have hnew := g.clean
          rw [hid] at hnew
          rw [g.same.request, hid]
          exact hnew (hclean₁ (hclean hworth))
        · exact holds_abandon g.toWorks
      | some code =>
        obtain ⟨c₂, h₂, -, -⟩ := hr
        dsimp only
        rw [holds_bind]
        refine holds_activeCall h₂.active ?_
        dsimp only
        split
        · exact holds_conclude hagain h₂ (fun _ hn => by cases hn) fun o ho => by cases ho
        · exact holds_abandon h₂

/-! ## An attempt -/

/-- The attempt ends with a failure. -/
theorem Finishes.fail {fin : Value → GM digest Unit} (h : Finishes codec ctx i fin) (hw : Works codec w c') {f : Failure}
    (hclean : fallsBack f.code = true → Clean c'.request.requestId w.log) :
    Holds (deadlineContract codec) ctx i (fin (.failure f)) (fun _ w' => Rest codec w') w :=
  h w c' _ hw hclean

/-- What the checks of an attempt, and the permit, leave. -/
def Waited (codec : Codec) (w : GWorld digest) (c : Call) {α : Type} (r : Except Exc α) (w' : GWorld digest) : Prop :=
  match r with
  | .ok _ => ∃ c', Goes codec w c w' c' ∧ c'.lastTime = c.lastTime ∧ c'.deadline = c.deadline
  | .error _ => Rest codec w'

theorem Works.goes (h : Works codec w c) : Goes codec w c w c := ⟨h, .refl c, fun hc => hc⟩

/-- **The checks of `_begin`.** -/
theorem holds_checked (h : Works codec w c) (request : Request) (route : Route) :
    Holds (deadlineContract codec) ctx i (checked codec request route) (Waited codec w c) w := by
  have hhere : ∀ (code : Option Code), Waited codec w c (.ok code) w := fun _ => ⟨c, h.goes, rfl, rfl⟩
  unfold checked
  rw [holds_catching, holds_bind]
  refine holds_ofCode (fun raw _ => ?_) fun code _ => hhere (some code)
  dsimp only
  rw [holds_bind, holds_read]
  dsimp only
  rw [holds_bind]
  refine holds_ofCode (fun u _ => ?_) fun code _ => hhere (some code)
  dsimp only
  cases route with
  | vm l => exact hhere none
  | host k =>
    dsimp only
    rw [holds_bind]
    refine holds_other h (by simp) (fun b hb => by cases hb) (fun a w' c' ha g hlast hdead => ?_) fun w' hr => hr
    have hdone : ∀ (code : Option Code), Waited codec w c (.ok code) w' := fun _ => ⟨c', g, hlast, hdead⟩
    cases a with
    | raised e =>
      cases e with
      | interrupt => exact absurd rfl ha
      | gateway code => exact hdone (some code)
      | configuration text => exact hdone (some .identity)
      | exception => exact hdone (some .identity)
    | text peer =>
      show Holds _ ctx i (if peer = k.endpoint.peerIdentity then _ else _) _ w'
      split
      · exact hdone none
      · exact hdone (some .identity)
    | _ => exact hdone (some .identity)

/-- **The permit.** -/
theorem holds_permitted (h : Works codec w c) (provider : Provider) (service : Service) (now : ℤ) :
    Holds (deadlineContract codec) ctx i (permitted provider service now) (Waited codec w c) w := by
  have hhere : ∀ (b : Bool), Waited codec w c (.ok b) w := fun _ => ⟨c, h.goes, rfl, rfl⟩
  unfold permitted onException
  rw [holds_catching, holds_bind, holds_read]
  dsimp only
  cases w.st.client.permit with
  | none => exact hhere true
  | some p =>
    cases p with
    | function f =>
      dsimp only
      rw [holds_bind]
      refine holds_other h (by simp) (fun b hb => by cases hb) (fun a w' c' ha g hlast hdead => ?_) fun w' hr => hr
      have hdone : ∀ (b : Bool), Waited codec w c (.ok b) w' := fun _ => ⟨c', g, hlast, hdead⟩
      cases a with
      | raised e =>
        show Holds _ ctx i (if e = .interrupt then .fail e else pure false) _ w'
        rw [if_neg fun he => ha (by rw [he])]
        exact hdone false
      | truth t => exact hdone t
      | _ => exact hdone false
    | configuration =>
      dsimp only
      rw [holds_bind, holds_read]
      dsimp only
      cases w.st.config with
      | none => exact hhere false
      | some cfg =>
        dsimp only
        rw [holds_bind, holds_write]
        exact ⟨c, ⟨h.same rfl rfl (fun _ _ hm => hm) rfl, .refl c, fun hc => hc⟩, rfl, rfl⟩

/-- **The `begin` itself**, with what the call has left. -/
theorem holds_launch {Q : Except Exc Answer → GWorld digest → Prop} (h : Works codec w c) (htime : InTime c)
    (hwanted : c.cancelRequested = false) (hclean : Clean c.request.requestId w.log) (hbudget : c.request.budgetMs = c.remaining)
    (hQ : ∀ (a : Answer) w' c', a ≠ .raised .interrupt → Goes codec w c w' c' → Q a.outcome w')
    (herr : ∀ e w', e ≠ .interrupt → Goes codec w c w' c → Q (.error e) w')
    (hbroken : ∀ w', Rest codec w' → Q (.error .interrupt) w') :
    Holds (deadlineContract codec) ctx i (launch codec c.request c.route) Q w := by
  have hdue := h.core.due h.active htime hwanted hclean
  obtain ⟨last, d, hlast, hd, hlt⟩ := htime
  have hremaining : c.remaining = d - last := by
    unfold Call.remaining
    rw [hlast, hd]
    rfl
  have hgranted : Granted codec w.st w.log c.request.budgetMs :=
    ⟨c, last, d, h.active, hlast, hd, hbudget.trans hremaining, hlt, hdue⟩
  have hinvoke : ∀ op, op ≠ .clock → (∀ b, grant op = some b → b = c.request.budgetMs) →
      Holds (deadlineContract codec) ctx i (invoke op) Q w := by
    intro op hop hgrant
    exact holds_other h hop (fun b hb => by rw [hgrant b hb]; exact hgranted)
      (fun a w' c' ha g _ _ => hQ a w' c' ha g) hbroken
  unfold launch
  cases c.route with
  | vm l => exact hinvoke _ (by simp) fun b hb => by cases hb; rfl
  | host k =>
    dsimp only
    rw [holds_bind]
    refine holds_ofCode (fun body _ => ?_) fun code _ => herr _ w (by simp) h.goes
    exact hinvoke _ (by simp) fun b hb => by cases hb; rfl

/-- **`_begin`, once everything is admitted.** -/
theorem holds_commence {fin : Value → GM digest Unit} (hfin : Finishes codec ctx i fin) (h : Works codec w c)
    (htime : InTime c) (hwanted : c.cancelRequested = false) (hclean : Clean c.request.requestId w.log)
    (hbudget : c.request.budgetMs = c.remaining) :
    Holds (deadlineContract codec) ctx i (commence codec fin c.request) (fun _ w' => Rest codec w') w := by
  have hsoiled : Works codec (w.put (w.st.onClient (.soil true))) c := h.same rfl rfl (fun _ _ hm => hm) rfl
  unfold commence
  rw [holds_bind, holds_write]
  dsimp only
  rw [holds_bind]
  refine holds_activeCall h.active ?_
  dsimp only
  unfold onException
  rw [holds_bind, holds_catching]
  show Holds _ ctx i (launch codec c.request c.route >>= fun a => pure (some a)) _ _
  rw [holds_bind]
  -- whatever was begun, the call's id and what is clean stay
  have hkept : ∀ {w₂ : GWorld digest} {c₂ : Call}, Goes codec (w.put (w.st.onClient (.soil true))) c w₂ c₂ →
      Clean c₂.request.requestId w₂.log := by
    intro w₂ c₂ g
    rw [g.same.request]
    exact g.clean hclean
  refine holds_launch hsoiled htime hwanted hclean hbudget (fun a w₂ c₂ ha g => ?_) (fun e w₂ he g => ?_) fun w₂ hr => hr
  · -- a job, or another object, is the call's now
    have hold : Clean c₂.request.requestId w₂.log := hkept g
    have hadopt : ∀ k : Option Code → GM digest Unit, (∀ code, k (some code) = fin (.failure (c.failure code))) →
        k none = pure () → Holds (deadlineContract codec) ctx i
          (do change fun c => { c with job := a.toJob }
              k (← interruption)) (fun _ w' => Rest codec w') w₂ := by
      intro k hsome hnone
      have hadopted := g.toWorks.change (f := fun c => { c with job := a.toJob })
        ⟨rfl, fun _ => rfl, rfl, rfl, fun hc => hc, rfl⟩
      show Holds _ ctx i (Prog.write _ >>= _) _ w₂
      rw [holds_bind, holds_write]
      dsimp only
      rw [holds_bind]
      refine (holds_interruption hadopted).mono fun r w₃ hr => ?_
      cases r with
      | error e => exact hr
      | ok interrupted =>
        cases interrupted with
        | none =>
          obtain ⟨c₃, g₃, -, -⟩ := hr
          dsimp only
          rw [hnone]
          refine ⟨g₃.toAt, fun c' hc' => ?_⟩
          obtain rfl : c₃ = c' := Option.some_inj.1 (g₃.active.symm.trans hc')
          rw [g₃.same.request]
          exact g₃.clean hold
        | some code =>
          obtain ⟨c₃, h₃, hsame, hworth⟩ := hr
          dsimp only
          rw [hsome]
          refine hfin.fail h₃ fun hcode => ?_
          rw [hsame.request]
          exact hworth hcode hold
    cases a with
    | raised e =>
      show Holds _ ctx i (if e = .interrupt then .fail e else pure none) _ w₂
      rw [if_neg fun he => ha (by rw [he])]
      exact hfin.fail g.toWorks fun _ => hkept g
    | remote code =>
      show Holds _ ctx i (Prog.write _ >>= _) _ w₂
      rw [holds_bind, holds_write]
      have hclear : Works codec (w₂.put (w₂.st.onClient (.soil false))) c₂ :=
        g.toWorks.same rfl rfl (fun _ _ hm => hm) rfl
      exact hfin.fail hclear fun _ => hold
    | _ =>
      dsimp only [Answer.outcome]
      rw [holds_pure]
      exact hadopt _ (fun _ => rfl) rfl
  · -- the request cannot be written
    show Holds _ ctx i (if e = .interrupt then .fail e else pure none) _ w₂
    rw [if_neg he]
    exact hfin.fail g.toWorks fun _ => hkept g

/-- **`_begin`, from the second look at the clock on.** -/
theorem holds_authorize {fin : Value → GM digest Unit} (hfin : Finishes codec ctx i fin) (h : Works codec w c)
    (hclean : Clean c.request.requestId w.log) :
    Holds (deadlineContract codec) ctx i (authorize codec fin) (fun _ w' => Rest codec w') w := by
  unfold authorize
  rw [holds_bind]
  refine (holds_interruption h).mono fun r w₁ hr => ?_
  cases r with
  | error e => exact hr
  | ok interrupted =>
    cases interrupted with
    | some code =>
      obtain ⟨c₁, h₁, hsame, hworth⟩ := hr
      dsimp only
      rw [holds_bind]
      refine holds_activeCall h₁.active (hfin.fail h₁ fun hcode => ?_)
      rw [hsame.request]
      exact hworth hcode hclean
    | none =>
      obtain ⟨c₁, g₁, htime, -⟩ := hr
      dsimp only
      rw [holds_bind]
      refine holds_activeCall g₁.active ?_
      show Holds _ ctx i (Prog.write _ >>= _) _ w₁
      rw [holds_bind, holds_write]
      dsimp only
      obtain ⟨last, d, hlast, hd, hlt⟩ := htime
      -- the request has what the call has left
      have hrouted : Works codec (w₁.put (w₁.st.onClient (.change fun call => { call with request := c₁.routed })))
          { c₁ with request := c₁.routed } :=
        g₁.toWorks.change (f := fun call => { call with request := c₁.routed })
          ⟨rfl, fun hn => (by rw [hlast] at hn; cases hn), rfl, rfl, fun hc => hc, rfl⟩
      have hclean₁ : Clean c₁.request.requestId w₁.log := by
        rw [g₁.same.request]
        exact g₁.clean hclean
      rw [holds_bind]
      refine (holds_permitted hrouted c₁.route.provider c₁.routed.service (c₁.lastTime.getD 0)).mono fun r w₂ hr => ?_
      cases r with
      | error e => exact hr
      | ok allowed =>
        obtain ⟨c₂, g₂, hlast₂, hdead₂⟩ := hr
        have hclean₂ : Clean c₂.request.requestId w₂.log := by
          rw [g₂.same.request]
          exact g₂.clean hclean₁
        dsimp only
        rw [holds_bind]
        refine holds_activeCall g₂.active ?_
        dsimp only
        rw [holds_bind, holds_read]
        dsimp only
        split
        · exact hfin.fail g₂.toWorks fun _ => hclean₂
        · rename_i hgo
          have hwanted : c₂.cancelRequested = false := by
            simp only [Bool.or_eq_true, not_or, Bool.not_eq_true] at hgo
            exact hgo.2
          have hbudget : c₂.request.budgetMs = c₂.remaining := by
            unfold Call.remaining
            rw [g₂.same.request, hlast₂, hdead₂]
            rfl
          have hprog : commence codec fin c₁.routed = commence codec fin c₂.request := by rw [g₂.same.request]
          rw [hprog]
          exact holds_commence hfin g₂.toWorks ⟨last, d, hlast₂.trans hlast, hdead₂.trans hd, hlt⟩ hwanted hclean₂ hbudget

/-- **`_begin`.** -/
theorem holds_attempt {fin : Value → GM digest Unit} (hfin : Finishes codec ctx i fin) :
    Begins codec ctx i (attempt codec fin) := by
  intro w c h hclean
  unfold attempt
  rw [holds_bind]
  refine (holds_interruption h).mono fun r w₁ hr => ?_
  cases r with
  | error e => exact hr
  | ok interrupted =>
    cases interrupted with
    | some code =>
      obtain ⟨c₁, h₁, hsame, hworth⟩ := hr
      dsimp only
      rw [holds_bind]
      refine holds_activeCall h₁.active (hfin.fail h₁ fun hcode => ?_)
      rw [hsame.request]
      exact hworth hcode hclean
    | none =>
      obtain ⟨c₁, g₁, -, -⟩ := hr
      dsimp only
      rw [holds_bind]
      refine holds_activeCall g₁.active ?_
      dsimp only
      rw [holds_bind]
      refine (holds_checked g₁.toWorks c₁.routed c₁.route).mono fun r w₂ hr => ?_
      cases r with
      | error e => exact hr
      | ok checks =>
        obtain ⟨c₂, g₂, -, -⟩ := hr
        have hclean₂ : Clean c₂.request.requestId w₂.log := by
          rw [g₂.same.request]
          refine g₂.clean ?_
          rw [g₁.same.request]
          exact g₁.clean hclean
        cases checks with
        | some code => exact hfin.fail g₂.toWorks fun _ => hclean₂
        | none => exact holds_authorize hfin g₂.toWorks hclean₂

/-- **The attempts of a call.** -/
theorem holds_finish (codec : Codec) : Finishes codec ctx i (finish codec : Value → GM digest Unit) :=
  holds_settle (holds_attempt (holds_settle fun w c h hclean => ⟨h.toAt, fun c' hc' => by
    obtain rfl : c = c' := Option.some_inj.1 (h.active.symm.trans hc')
    exact hclean⟩))

theorem holds_beginCall (codec : Codec) : Begins codec ctx i (beginCall codec : GM digest Unit) :=
  holds_attempt (holds_finish codec)

end Deadline

end Gateway

end Arhugula
