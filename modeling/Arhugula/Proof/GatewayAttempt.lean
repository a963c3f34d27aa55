import Arhugula.Proof.GatewayCalls

/-!
# An attempt of the gateway

The specifications of `_interruption`, of the checks and the permit, of `_begin` and of
`_finish`, each from where it may be called: `Mid` (an activation works on the active call),
`Ready` (an attempt may be begun), `Finishing` (an attempt ends with this value). Whatever
the callbacks do, `_begin` and `_finish` stay on a path of steps and end as `Done` says.
-/

namespace Arhugula

namespace Gateway

open Reentrant Providers

variable {digest : Manifest → String} {codec : Codec} {s₀ : Sys digest} {ctx : List (ℕ × Op)}
  {i : ℕ} {b : Bool} {w w' : GWorld digest} {c c' : Call}

/-! ## Where an attempt is -/

/-- A client that nothing was done with yet. -/
def Fresh (s₀ : Sys digest) : Prop := ∃ host localRoute version, s₀ = fresh digest host localRoute version

theorem Path.lives (h₀ : Fresh s₀) (h : Path codec s₀ w) : Lives w := by
  obtain ⟨host, localRoute, version, rfl⟩ := h₀
  have hlife : Life (fresh digest host localRoute version) :=
    ⟨rfl, List.nodup_nil, rfl, ⟨[], rfl, rfl⟩, fun _ => rfl⟩
  exact h.induction ⟨hlife, rfl⟩ fun _ _ _ h hs => lives_step hs h

theorem Path.books (h₀ : Fresh s₀) (h : Path codec s₀ w) : Books w := by
  obtain ⟨host, localRoute, version, rfl⟩ := h₀
  have hdirty : ¬ Dirty (fresh digest host localRoute version) := by
    rintro ⟨id, f, hm, -⟩
    cases hm
  have hbooks : Books (⟨fresh digest host localRoute version, [], 0⟩ : GWorld digest) :=
    ⟨Nat.zero_le 1, fun _ => ⟨rfl, hdirty⟩, fun c hc => (by cases hc), fun _ _ => rfl⟩
  exact h.induction hbooks fun _ _ _ h hs => books_step hs h

theorem Path.tries (h₀ : Fresh s₀) (h : Path codec s₀ w) : Tries w := by
  have hstart : Path codec s₀ ⟨s₀, [], 0⟩ := .start
  have htries : Tries (⟨s₀, [], 0⟩ : GWorld digest) := by
    obtain ⟨host, localRoute, version, rfl⟩ := h₀
    exact ⟨fun _ => .inl rfl, fun _ _ => rfl, fun c h hc => by cases hc⟩
  refine (h.induction (P := fun w => Lives w ∧ Tries w) ⟨hstart.lives h₀, htries⟩ ?_).2
  exact fun _ _ _ h hs => ⟨lives_step hs h.1, tries_step h.1 hs h.2⟩

/-- No fault is recorded, or a callback raised what no handler catches. -/
def Sound (w : GWorld digest) : Prop := w.st.client.fault = none ∨ Disturbed w.log

/-- An activation works on the active call `c`. -/
structure Mid (codec : Codec) (s₀ : Sys digest) (b : Bool) (w : GWorld digest) (c : Call) : Prop where
  path : Path codec s₀ w
  inside : w.st.client.insideCallback = false
  configuring : w.st.client.configuring = b
  active : w.st.client.active = some c

/-- The same attempt: only its times and the wish to cancel it may be new. -/
structure SameCall (c c' : Call) : Prop where
  request : c'.request = c.request
  route : c'.route = c.route
  primary : c'.primary = c.primary
  job : c'.job = c.job

/-- The attempt goes on quietly, to `c'` in `w'`. -/
structure Goes (codec : Codec) (s₀ : Sys digest) (b : Bool) (w : GWorld digest) (c : Call)
    (w' : GWorld digest) (c' : Call) : Prop extends Mid codec s₀ b w' c' where
  same : SameCall c c'
  quiet : Quiet w w'

theorem SameCall.refl (c : Call) : SameCall c c := ⟨rfl, rfl, rfl, rfl⟩

theorem SameCall.trans {a b c : Call} (h : SameCall a b) (h' : SameCall b c) : SameCall a c :=
  ⟨h'.request.trans h.request, h'.route.trans h.route, h'.primary.trans h.primary, h'.job.trans h.job⟩

theorem Mid.goes (h : Mid codec s₀ b w c) : Goes codec s₀ b w c w c := ⟨h, .refl c, .refl w⟩

theorem Goes.trans {w'' : GWorld digest} {c'' : Call} (h : Goes codec s₀ b w c w' c')
    (h' : Goes codec s₀ b w' c' w'' c'') : Goes codec s₀ b w c w'' c'' :=
  ⟨h'.toMid, h.same.trans h'.same, h.quiet.trans h'.quiet⟩

theorem Sound.quiet (h : Sound w) (hq : Quiet w w') (hf : w'.st.client.fault = w.st.client.fault) :
    Sound w' := by
  rcases h with h | h
  · exact .inl (hf.trans h)
  · exact .inr (hq.disturbed h)

/-- **How `_begin` and `_finish` end**, from `w`: they raise only what no handler catches, and
an active call that they leave has no fault. -/
structure Done {α : Type} (codec : Codec) (s₀ : Sys digest) (b : Bool) (w : GWorld digest)
    (r : Except Exc α) (w' : GWorld digest) : Prop where
  path : Path codec s₀ w'
  inside : w'.st.client.insideCallback = false
  configuring : w'.st.client.configuring = b
  status : w'.st.status = w.st.status
  sound : w'.st.client.active.isSome → Sound w'
  raises : ∀ e, r = .error e → e = .interrupt

theorem Done.from {α : Type} {r : Except Exc α} {w₁ : GWorld digest} (h : Done codec s₀ b w₁ r w')
    (hs : w₁.st.status = w.st.status) : Done codec s₀ b w r w' :=
  { h with status := h.status.trans hs }

/-- An active call is left as it is. -/
theorem Mid.done {α : Type} (h : Mid codec s₀ b w' c) (hs : w'.st.status = w.st.status)
    (hf : Sound w') (a : α) : Done codec s₀ b w (.ok a) w' :=
  ⟨h.path, h.inside, h.configuring, hs, fun _ => hf, fun e he => by cases he⟩

/-- A callback raised what no handler catches. -/
structure Broken (codec : Codec) (s₀ : Sys digest) (b : Bool) (w w' : GWorld digest) : Prop where
  path : Path codec s₀ w'
  inside : w'.st.client.insideCallback = false
  configuring : w'.st.client.configuring = b
  status : w'.st.status = w.st.status
  disturbed : Disturbed w'.log

theorem Broken.done {α : Type} (h : Broken codec s₀ b w w') :
    Done codec s₀ b w (.error .interrupt : Except Exc α) w' :=
  ⟨h.path, h.inside, h.configuring, h.status, fun _ => .inr h.disturbed, fun e he => by cases he; rfl⟩

theorem Broken.from {w₁ : GWorld digest} (h : Broken codec s₀ b w₁ w')
    (hs : w₁.st.status = w.st.status) : Broken codec s₀ b w w' :=
  { h with status := h.status.trans hs }

/-! ## Callbacks of an attempt -/

/-- After a callback, another end may have been asked for. -/
theorem Mid.invoked {op : Op} {a : Answer} (h : Mid codec s₀ b w c)
    (hi : Invoked codec s₀ i op a w w') :
    ∃ x, Mid codec s₀ b w' { c with cancelRequested := c.cancelRequested || x } ∧
      w'.st.client.fault = w.st.client.fault := by
  obtain ⟨d, x, hst⟩ := hi.flags
  refine ⟨x, ⟨hi.path, ?_, ?_, ?_⟩, by rw [hst]; rfl⟩
  · rw [hst]
    exact h.inside
  · rw [hst]
    exact h.configuring
  · rw [hst]
    exact Client.flag_active h.active

theorem Mid.invoked_quiet {op : Op} {a : Answer} (h : Mid codec s₀ b w c) (hop : op.quiet = true)
    (hi : Invoked codec s₀ i op a w w') :
    ∃ x, Goes codec s₀ b w c w' { c with cancelRequested := c.cancelRequested || x } ∧
      w'.st.client.fault = w.st.client.fault := by
  obtain ⟨x, hmid, hf⟩ := h.invoked hi
  exact ⟨x, ⟨hmid, ⟨rfl, rfl, rfl, rfl⟩, hi.quiet hop⟩, hf⟩

theorem Invoked.disturbed {op : Op} (hi : Invoked codec s₀ i op (.raised .interrupt) w w') :
    Disturbed w'.log := by
  obtain ⟨s, s', new, hl, -⟩ := hi.log
  rw [hl]
  exact ⟨_, List.mem_cons_self, op, rfl⟩

theorem Mid.broken {op : Op} (h : Mid codec s₀ b w c)
    (hi : Invoked codec s₀ i op (.raised .interrupt) w w') : Broken codec s₀ b w w' := by
  obtain ⟨x, hmid, -⟩ := h.invoked hi
  obtain ⟨d, y, hst⟩ := hi.flags
  exact ⟨hi.path, hmid.inside, hmid.configuring, by rw [hst]; rfl, hi.disturbed⟩

/-- The answer of a callback is in the log. -/
theorem Invoked.mem {op : Op} {a : Answer} (hi : Invoked codec s₀ i op a w w') :
    ∃ e ∈ w'.log, e.frame = i ∧ e.act = .reply op a := by
  obtain ⟨s, s', new, hl, -⟩ := hi.log
  rw [hl]
  exact ⟨_, List.mem_cons_self, rfl, rfl⟩

/-- Whatever the clock told activation `i` is as `P` says. -/
theorem clocks_invoked {op : Op} {a : Answer} {P : Answer → Prop}
    (h : ∀ e ∈ w.log, e.frame = i → ∀ a, e.act = .reply .clock a → P a)
    (hi : Invoked codec s₀ i op a w w') (ha : op = .clock → P a) :
    ∀ e ∈ w'.log, e.frame = i → ∀ a, e.act = .reply .clock a → P a := by
  obtain ⟨s, s', new, hl, -, -, hnew, -⟩ := hi.log
  intro e he hfr a' hact
  rw [hl] at he
  simp only [List.mem_cons, List.mem_append] at he
  rcases he with rfl | he | rfl | he
  · cases hact
    exact ha rfl
  · exact absurd hfr (hnew e he).2
  · cases hact
  · exact h e he hfr a' hact

theorem Timely.invoked {op : Op} {a : Answer} (h : Timely i c w.log)
    (hi : Invoked codec s₀ i op a w w') (hop : op ≠ .clock) : Timely i c w'.log :=
  clocks_invoked h hi fun heq => absurd heq hop

/-- The clock told a time that is not before the last one. -/
theorem Timely.clock {now : ℤ} (h : Timely i c w.log)
    (hi : Invoked codec s₀ i .clock (.time now) w w') (h0 : 0 ≤ now)
    (hl : ∀ t ∈ c.lastTime, t ≤ now) : Timely i (c.tick now) w'.log := by
  have hold : ∀ e ∈ w.log, e.frame = i → ∀ a, e.act = .reply .clock a →
      ∃ u t, a = .time u ∧ 0 ≤ u ∧ (c.tick now).lastTime = some t ∧ u ≤ t := by
    intro e he hfr a hact
    obtain ⟨u, t, ha, hu, ht, hle⟩ := h e he hfr a hact
    have := hl t ht
    exact ⟨u, now, ha, hu, rfl, by omega⟩
  exact clocks_invoked hold hi fun _ => ⟨now, now, rfl, h0, rfl, by omega⟩

/-! ## The clock -/

theorem quiet_put {s : Sys digest} (hc : s.client = { w.st.client with
    active := s.client.active, disabled := s.client.disabled, fault := s.client.fault })
    (ht : s.trail = w.st.trail) (hs : s.status = w.st.status) (hd : Doomed w.st → Doomed s) :
    Quiet w (w.put s) :=
  ⟨hc, ht, hs, hd, [], rfl, by simp, by simp⟩

theorem quiet_latch (code : Code) : Quiet w (w.put (w.st.onClient (.latch code))) :=
  quiet_put rfl rfl rfl fun h => h

theorem quiet_change {f : Call → Call} (hf : ∀ c, (f c).cancelRequested = c.cancelRequested) :
    Quiet w (w.put (w.st.onClient (.change f))) := by
  refine quiet_put rfl rfl rfl fun hd c' hc' => ?_
  obtain ⟨c, hc, rfl⟩ := Option.map_eq_some_iff.1 hc'
  rw [hf c]
  exact hd c hc

/-- A change of the active call. -/
theorem Mid.change (h : Mid codec s₀ b w c) {f : Call → Call}
    (hp : Path codec s₀ (w.put (w.st.onClient (.change f)))) :
    Mid codec s₀ b (w.put (w.st.onClient (.change f))) (f c) :=
  ⟨hp, h.inside, h.configuring, by
    show w.st.client.active.map f = _
    rw [h.active]
    rfl⟩

theorem holds_activeCall {Q : Except Exc Call → GWorld digest → Prop} (h : Mid codec s₀ b w c)
    (hQ : Q (.ok c) w) : Holds (gatewayContract codec s₀) ctx i activeCall Q w := by
  unfold activeCall
  rw [holds_bind, holds_read]
  dsimp only
  rw [h.active]
  exact hQ

/-- What the `try` of `_interruption` gives. -/
theorem holds_readClock {Q : Except Exc (Option ℤ) → GWorld digest → Prop} (h : Mid codec s₀ b w c)
    (hsome : ∀ now x w', Invoked codec s₀ i .clock (.time now) w w' → 0 ≤ now →
      (∀ t ∈ c.lastTime, t ≤ now) →
      Goes codec s₀ b w c w' { c with cancelRequested := c.cancelRequested || x } →
      w'.st.client.fault = w.st.client.fault → Q (.ok (some now)) w')
    (hnone : ∀ x w', Goes codec s₀ b w c w' { c with cancelRequested := c.cancelRequested || x } →
      Q (.ok none) w')
    (herr : ∀ w', Broken codec s₀ b w w' → Q (.error .interrupt) w') :
    Holds (gatewayContract codec s₀) ctx i readClock Q w := by
  unfold readClock onException
  rw [holds_catching, holds_bind]
  refine holds_invoke_quiet rfl h.path h.inside fun a w' hi => ?_
  obtain ⟨x, hgoes, hf⟩ := h.invoked_quiet rfl hi
  have hfail : Q (.ok none) w' := hnone x w' hgoes
  cases a with
  | raised e =>
    show Holds _ ctx i (if e = .interrupt then .fail e else pure none) Q w'
    by_cases he : e = .interrupt
    · subst he
      rw [if_pos rfl]
      exact herr w' (h.broken hi)
    · rw [if_neg he]
      exact hfail
  | time now =>
    show Holds _ ctx i _ _ w'
    rw [holds_bind]
    refine holds_activeCall hgoes.toMid ?_
    dsimp only
    split
    · exact hfail
    · rename_i hcond
      rw [Bool.not_eq_true, Bool.or_eq_false_iff] at hcond
      obtain ⟨hneg, hlast⟩ := hcond
      have h0 : ¬ now < 0 := of_decide_eq_false hneg
      refine hsome now x w' hi (by omega) (fun t ht => ?_) hgoes hf
      have ht' : c.lastTime = some t := ht
      rw [ht'] at hlast
      have hge : ¬ now < t := of_decide_eq_false hlast
      omega
  | _ => exact hfail

/-- The times of the call: it has some left. -/
def InTime (c : Call) : Prop := ∃ t d, c.lastTime = some t ∧ c.deadline = some d ∧ t < d

/-- **`_interruption`.** -/
theorem holds_interruption {Q : Except Exc (Option Code) → GWorld digest → Prop}
    (h : Mid codec s₀ b w c)
    (hnone : ∀ w' c', Goes codec s₀ b w c w' c' → w'.st.client.fault = w.st.client.fault →
      c'.cancelRequested = false → InTime c' → (Timely i c w.log → Timely i c' w'.log) →
      Q (.ok none) w')
    (hsome : ∀ code w' c', Goes codec s₀ b w c w' c' →
      (fallsBack code = true → w'.st.client.fault = w.st.client.fault) → Q (.ok (some code)) w')
    (herr : ∀ w', Broken codec s₀ b w w' → Q (.error .interrupt) w') :
    Holds (gatewayContract codec s₀) ctx i interruption Q w := by
  unfold interruption
  rw [holds_bind]
  refine holds_readClock h (fun now x w' hi h0 hl hgoes hf => ?_) (fun x w' hgoes => ?_) herr
  · -- the time is taken
    show Holds _ ctx i _ Q w'
    obtain ⟨c', hc'⟩ : ∃ c', c' = { c with cancelRequested := c.cancelRequested || x } := ⟨_, rfl⟩
    rw [← hc'] at hgoes
    have hlast : c'.lastTime = c.lastTime := by rw [hc']
    have hpath : Path codec s₀ (w'.put (w'.st.onClient (.change (.tick now)))) :=
      hgoes.path.step (.tick w' c' now hgoes.active h0 (by rw [hlast]; exact hl))
    have hmid : Mid codec s₀ b (w'.put (w'.st.onClient (.change (.tick now)))) (c'.tick now) :=
      hgoes.toMid.change hpath
    have hgoes' : Goes codec s₀ b w c (w'.put (w'.st.onClient (.change (.tick now)))) (c'.tick now) :=
      ⟨hmid, hgoes.same.trans ⟨rfl, rfl, rfl, rfl⟩, hgoes.quiet.trans (quiet_change fun _ => rfl)⟩
    show Holds _ ctx i (activeCall >>= _) Q _
    rw [holds_bind]
    refine holds_activeCall hmid ?_
    dsimp only
    split
    · exact hsome _ _ _ hgoes' fun _ => hf
    · rename_i hcancel
      split
      · exact hsome _ _ _ hgoes' fun _ => hf
      · rename_i hleft
        refine hnone _ _ hgoes' hf (by simpa using hcancel) ?_ fun ht => ?_
        · have hpos : ¬ c'.deadline.getD (now + c'.request.budgetMs) - now ≤ 0 := hleft
          exact ⟨now, c'.deadline.getD (now + c'.request.budgetMs), rfl, rfl, by omega⟩
        · have htold : Timely i (c.tick now) w'.log := ht.clock hi h0 hl
          exact htold
  · -- the clock failed
    have hpath := hgoes.path.step (.latch w' .clock)
    refine hsome _ _ { c with cancelRequested := c.cancelRequested || x } ⟨⟨hpath, ?_, ?_, ?_⟩, ?_, ?_⟩ ?_
    · exact hgoes.inside
    · exact hgoes.configuring
    · exact hgoes.active
    · exact ⟨rfl, rfl, rfl, rfl⟩
    · exact hgoes.quiet.trans (quiet_latch .clock)
    · intro hcode
      cases hcode

/-! ## The checks -/

/-- The attempt goes on, and the clock was not asked. -/
structure Waits (codec : Codec) (s₀ : Sys digest) (b : Bool) (i : ℕ) (w : GWorld digest) (c : Call)
    (w' : GWorld digest) (c' : Call) : Prop extends Goes codec s₀ b w c w' c' where
  last : c'.lastTime = c.lastTime
  deadline : c'.deadline = c.deadline
  fault : w'.st.client.fault = w.st.client.fault
  timely : Timely i c w.log → Timely i c' w'.log

theorem Mid.waits (h : Mid codec s₀ b w c) : Waits codec s₀ b i w c w c :=
  ⟨h.goes, rfl, rfl, rfl, fun ht => ht⟩

/-- A callback other than the clock. -/
theorem Mid.waits_invoked {op : Op} {a : Answer} (h : Mid codec s₀ b w c) (hop : op.quiet = true)
    (hne : op ≠ .clock) (hi : Invoked codec s₀ i op a w w') : ∃ c', Waits codec s₀ b i w c w' c' := by
  obtain ⟨x, hgoes, hf⟩ := h.invoked_quiet hop hi
  exact ⟨_, hgoes, rfl, rfl, hf, fun ht => ht.invoked hi hne⟩

theorem holds_ofCode {K : Contract (gateway codec digest)} {α : Type} {x : Except Code α}
    {Q : Except Exc α → GWorld digest → Prop} (hok : ∀ a, x = .ok a → Q (.ok a) w)
    (herr : ∀ code, x = .error code → Q (.error (.gateway code)) w) : Holds K ctx i (ofCode x) Q w := by
  cases x with
  | ok a => exact hok a rfl
  | error code => exact herr code rfl

/-- **The checks of `_begin`.** -/
theorem holds_checked {Q : Except Exc (Option Code) → GWorld digest → Prop} (h : Mid codec s₀ b w c)
    (hnone : ∀ w' c', Waits codec s₀ b i w c w' c' →
      checkProvider c.routed c.route.provider w.st.client.catalogVersion = .ok () →
      (∀ k, c.route = .host k → ∃ e ∈ w'.log, e.frame = i ∧
        e.act = .reply (.peer k.transport) (.text k.endpoint.peerIdentity)) → Q (.ok none) w')
    (hsome : ∀ code w' c', Waits codec s₀ b i w c w' c' → Q (.ok (some code)) w')
    (herr : ∀ w', Broken codec s₀ b w w' → Q (.error .interrupt) w') :
    Holds (gatewayContract codec s₀) ctx i (checked codec c.routed c.route) Q w := by
  unfold checked
  rw [holds_catching, holds_bind]
  refine holds_ofCode (fun body _ => ?_) fun code _ => hsome code w c h.waits
  dsimp only
  rw [holds_bind, holds_read]
  dsimp only
  rw [holds_bind]
  refine holds_ofCode (fun u hcheck => ?_) fun code _ => hsome code w c h.waits
  dsimp only
  cases hroute : c.route with
  | vm l =>
    rw [hroute] at hcheck
    refine hnone w c h.waits (by rw [hroute]; exact hcheck) fun k hk => ?_
    rw [hroute] at hk
    cases hk
  | host k =>
    rw [hroute] at hcheck
    dsimp only
    rw [holds_bind]
    refine holds_invoke_quiet rfl h.path h.inside fun a w' hi => ?_
    obtain ⟨c', hwaits⟩ := h.waits_invoked rfl (by simp) hi
    have hfail : ∀ code, Q (.ok (some code)) w' := fun code => hsome code w' c' hwaits
    cases a with
    | raised e =>
      cases e with
      | interrupt => exact herr w' (h.broken hi)
      | gateway code => exact hfail code
      | configuration text => exact hfail .identity
      | exception => exact hfail .identity
    | text peer =>
      show Holds _ ctx i (if peer = k.endpoint.peerIdentity then _ else _) _ w'
      by_cases hpeer : peer = k.endpoint.peerIdentity
      · rw [if_pos hpeer]
        refine hnone w' c' hwaits (by rw [hroute]; exact hcheck) fun k' hk' => ?_
        rw [hroute] at hk'
        cases hk'
        subst hpeer
        exact hi.mem
      · rw [if_neg hpeer]
        exact hfail .identity
    | _ => exact hfail .identity

/-- **The permit.** -/
theorem holds_permitted {Q : Except Exc Bool → GWorld digest → Prop} (h : Mid codec s₀ b w c)
    (htrue : ∀ w' c', Waits codec s₀ b i w c w' c' → Permits i c' w'.st w'.log → Q (.ok true) w')
    (hfalse : ∀ w' c', Waits codec s₀ b i w c w' c' → Q (.ok false) w')
    (herr : ∀ w', Broken codec s₀ b w w' → Q (.error .interrupt) w') :
    Holds (gatewayContract codec s₀) ctx i
      (permitted c.route.provider c.request.service (c.lastTime.getD 0)) Q w := by
  unfold permitted onException
  rw [holds_catching, holds_bind, holds_read]
  dsimp only
  cases hpermit : w.st.client.permit with
  | none =>
    refine htrue w c h.waits ?_
    unfold Permits
    rw [hpermit]
    trivial
  | some p =>
    cases p with
    | function f =>
      dsimp only
      rw [holds_bind]
      refine holds_invoke_quiet rfl h.path h.inside fun a w' hi => ?_
      obtain ⟨c', hwaits⟩ := h.waits_invoked rfl (by simp) hi
      have hfail : Q (.ok false) w' := hfalse w' c' hwaits
      cases a with
      | raised e =>
        show Holds _ ctx i (if e = .interrupt then .fail e else pure false) Q w'
        by_cases he : e = .interrupt
        · subst he
          rw [if_pos rfl]
          exact herr w' (h.broken hi)
        · rw [if_neg he]
          exact hfail
      | truth t =>
        cases t with
        | false => exact hfail
        | true =>
          refine htrue w' c' hwaits ?_
          have hp : w'.st.client.permit = some (.function f) := by
            rw [hwaits.quiet.client]
            exact hpermit
          unfold Permits
          rw [hp, hwaits.same.route, hwaits.same.request, hwaits.last]
          exact hi.mem
      | _ => exact hfail
    | configuration =>
      dsimp only
      rw [holds_bind, holds_read]
      dsimp only
      cases hcfg : w.st.config with
      | none => exact hfalse w c h.waits
      | some cfg =>
        -- the configuration decides, at the time that it takes
        obtain ⟨now, hnow⟩ : ∃ now, now = c.lastTime.getD 0 := ⟨_, rfl⟩
        rw [← hnow]
        obtain ⟨s', hs'⟩ : ∃ s' : Sys digest, s' = { w.st with config := some (cfg.time (some now)).2 } :=
          ⟨_, rfl⟩
        have hpath : Path codec s₀ (w.put s') := by
          rw [hs']
          exact h.path.step (.time w cfg (some now) hcfg)
        have hstatus : s'.status = w.st.status := by
          rw [hs']
          unfold Sys.status
          rw [hcfg]
          show some (cfg.time (some now)).2.state = some cfg.state
          unfold Configuration.time
          dsimp only
          split <;> rfl
        have hclient : s'.client = w.st.client := by rw [hs']
        have hquiet : Quiet w (w.put s') :=
          quiet_put (by rw [hclient]) (by rw [hs']) hstatus fun hd => by unfold Doomed; rw [hclient]; exact hd
        have hwaits : Waits codec s₀ b i w c (w.put s') c := by
          refine ⟨⟨⟨hpath, ?_, ?_, ?_⟩, .refl c, hquiet⟩, rfl, rfl, ?_, fun ht => ht⟩
          · exact (congrArg Client.insideCallback hclient).trans h.inside
          · exact (congrArg Client.configuring hclient).trans h.configuring
          · exact (congrArg Client.active hclient).trans h.active
          · exact congrArg Client.fault hclient
        have hsnd : (cfg.permit c.route.provider c.request.service now).2 = (cfg.time (some now)).2 := by
          unfold Configuration.permit
          split <;> rename_i heq <;> rw [heq]
        dsimp only
        show Holds _ ctx i (Prog.write _ >>= _) _ w
        rw [holds_bind, holds_write, hsnd, ← hs']
        cases hfst : (cfg.permit c.route.provider c.request.service now).1 with
        | false => exact hfalse _ c hwaits
        | true =>
          refine htrue _ c hwaits ?_
          unfold Permits
          have hp : (w.put s').st.client.permit = some .configuration :=
            (congrArg Client.permit hclient).trans hpermit
          rw [hp]
          refine ⟨(cfg.time (some now)).2, by rw [World.put_st, hs'], ?_⟩
          rw [← hnow]
          unfold Configuration.permit at hfst
          split at hfst
          · cases hfst
          · rename_i heq
            rw [heq]
            exact hfst

/-! ## `_begin` -/

/-- **An attempt ends** with this value. -/
structure Finishing (codec : Codec) (s₀ : Sys digest) (b : Bool) (w : GWorld digest) (c : Call)
    (v : Value) : Prop extends Mid codec s₀ b w c where
  sound : ∀ f, v = .failure f → fallsBack f.code = true → Sound w
  made : ∀ f, v = .failure f → f = c.failure f.code
  parsed : ∀ o, v = .output o →
    Parsed codec c w.log ⟨o, c.route.provider.providerId, c.route.provider.modelVersion⟩

/-- `fin` ends the attempts on the route `r`. -/
def Finishes (codec : Codec) (s₀ : Sys digest) (ctx : List (ℕ × Op)) (i : ℕ) (b : Bool) (r : Route)
    (fin : Value → GM digest Unit) : Prop :=
  ∀ w c v, c.route = r → Finishing codec s₀ b w c v →
    Holds (gatewayContract codec s₀) ctx i (fin v) (Done codec s₀ b w) w

theorem failure_route (h : c'.route = c.route) (code : Code) : c'.failure code = c.failure code := by
  unfold Call.failure
  rw [h]

/-- The attempt ends with a failure. -/
theorem Finishes.fail {r : Route} {fin : Value → GM digest Unit} (h : Finishes codec s₀ ctx i b r fin)
    (hmid : Mid codec s₀ b w' c') (hroute : c'.route = c.route) (hs : w'.st.status = w.st.status)
    (hr : c.route = r) {code : Code} (hsound : fallsBack code = true → Sound w') :
    Holds (gatewayContract codec s₀) ctx i (fin (.failure (c.failure code))) (Done codec s₀ b w) w' := by
  have hfin : Finishing codec s₀ b w' c' (.failure (c.failure code)) := by
    refine ⟨hmid, fun f hf hcode => ?_, fun f hf => ?_, fun o ho => by cases ho⟩
    · cases hf
      exact hsound hcode
    · cases hf
      exact (failure_route hroute code).symm
  exact (h w' c' _ (hroute.trans hr) hfin).mono fun r w'' hd => hd.from hs

/-- **Where an attempt may be begun**, by activation `i`. -/
structure Ready (codec : Codec) (s₀ : Sys digest) (i : ℕ) (b : Bool) (w : GWorld digest) (c : Call) :
    Prop extends Mid codec s₀ b w c where
  idle : c.job = none
  clean : w.st.client.unclean = false
  sound : Sound w
  host : ∀ k, c.route = .host k → w.st.client.fault = none ∧ Timely i c w.log ∧
    (Unasked i w.log ∨ Doomed w.st) ∧ begins w.log c.request.requestId = []
  vm : ∀ l, c.route = .vm l → false ∉ begins w.log c.request.requestId

theorem Ready.goes (h : Ready codec s₀ i b w c) (g : Goes codec s₀ b w c w' c')
    (hf : w'.st.client.fault = w.st.client.fault) (ht : Timely i c w.log → Timely i c' w'.log) :
    Ready codec s₀ i b w' c' := by
  refine ⟨g.toMid, g.same.job.trans h.idle, ?_, h.sound.quiet g.quiet hf, fun k hk => ?_, fun l hl => ?_⟩
  · rw [g.quiet.client]
    exact h.clean
  · obtain ⟨hnone, htime, hask, hbeg⟩ := h.host k (g.same.route ▸ hk)
    refine ⟨hf.trans hnone, ht htime, ?_, ?_⟩
    · by_cases hd : Doomed w'.st
      · exact .inr hd
      · rcases hask with hask | hask
        · exact .inl (g.quiet.unasked hask hd)
        · exact absurd (g.quiet.doomed hask) hd
    · rw [g.same.request, g.quiet.begins]
      exact hbeg
  · rw [g.same.request, g.quiet.begins]
    exact h.vm l (g.same.route ▸ hl)

theorem Ready.waits (h : Ready codec s₀ i b w c) (g : Waits codec s₀ b i w c w' c') :
    Ready codec s₀ i b w' c' := h.goes g.toGoes g.fault g.timely

/-- What a `begin` answered is in the log, and its debt too. -/
theorem Invoked.begun {op : Op} {a : Answer} (hi : Invoked codec s₀ i op a w w') :
    ∃ s rest, w'.log = ⟨i, .reply op a, s⟩ :: rest ∧ (op.begins.isSome → debts rest = debts w.log) ∧
      ∃ e ∈ rest, e.act = .call op ∧ e.st.client.active = w.st.client.active := by
  obtain ⟨s, s', new, hl, hact, -, hnew, -⟩ := hi.log
  refine ⟨s, _, hl, fun _ => ?_, ⟨i, .call op, s'⟩, by simp, rfl, hact⟩
  rw [debts_still fun e he => still_of_passive (hnew e he).1]
  exact debts_other w.log i s' fun op' a' h => by cases h

theorem Sound.invoked {op : Op} {a : Answer} (h : Sound w) (hi : Invoked codec s₀ i op a w w')
    (hf : w'.st.client.fault = w.st.client.fault) : Sound w' := by
  rcases h with h | ⟨e, he, hx⟩
  · exact .inl (hf.trans h)
  · obtain ⟨s, s', new, hl, -⟩ := hi.log
    refine .inr ⟨e, ?_, hx⟩
    rw [hl]
    simp [he]

/-- **The `begin` itself.** -/
theorem holds_launch {Q : Except Exc Answer → GWorld digest → Prop} (h : Mid codec s₀ b w c)
    (hadm : Admitted i c w.st w.log)
    (hbegun : ∀ op a w', Launches codec c op → op.begins.isSome → Invoked codec s₀ i op a w w' →
      Q a.outcome w')
    (hrefused : ∀ code, Q (.error (.gateway code)) w) :
    Holds (gatewayContract codec s₀) ctx i (launch codec c.request c.route) Q w := by
  have hinvoke : ∀ op, Launches codec c op → Holds (gatewayContract codec s₀) ctx i (invoke op) Q w := by
    intro op hop
    have hb : op.begins.isSome := by
      rcases launches_begins hop with ⟨k, -, hb⟩ | ⟨l, -, hb⟩ <;> rw [hb] <;> rfl
    have hin : Admitted i c (w.put (w.st.onClient (.inside true))).st w.log :=
      ⟨hadm.active, hadm.idle, hadm.owed, hadm.unclean, hadm.enabled, hadm.wanted, hadm.routed,
        hadm.provider, hadm.time, hadm.permit, hadm.host, hadm.vm⟩
    refine holds_invoke h.inside ((h.path.step (.inside w true)).step (.launch _ i c op hin hop)) ?_
      fun a w' _ hi => hbegun op a w' hop hb hi
    intro w₁ a ha hp hpass
    obtain ⟨⟨d, x, hst⟩, new, hl, hnew, -⟩ := hpass
    refine hp.step (.began w₁ i { c with cancelRequested := c.cancelRequested || x } op a hb ?_
      hadm.idle ?_ ?_)
    · rw [hst]
      exact Client.flag_active h.active
    · rw [hst]
      exact hadm.unclean
    · rw [hl, debts_still fun e he => still_of_passive (hnew e he)]
      rw [World.push_log, debts_other _ i _ fun op' a' h => by cases h]
      exact hadm.owed
  unfold launch
  cases hroute : c.route with
  | vm l =>
    refine hinvoke _ ?_
    unfold Launches
    rw [hroute]
  | host k =>
    dsimp only
    rw [holds_bind]
    refine holds_ofCode (fun body hbody => ?_) fun code _ => hrefused code
    dsimp only
    refine hinvoke _ ?_
    unfold Launches
    rw [hroute]
    exact ⟨body, hbody, rfl⟩

/-- **`_begin`, once everything is admitted.** -/
theorem holds_commence {r : Route} {fin : Value → GM digest Unit}
    (hfin : Finishes codec s₀ ctx i b r fin) (h : Mid codec s₀ b w c) (hr : c.route = r)
    (hsound : Sound w) (hdirty : ¬ Dirty w.st)
    (hadm : Admitted i c (w.st.onClient (.soil true)) w.log) :
    Holds (gatewayContract codec s₀) ctx i (commence codec fin c.request) (Done codec s₀ b w) w := by
  obtain ⟨w₁, hw₁⟩ : ∃ w₁, w₁ = w.put (w.st.onClient (.soil true)) := ⟨_, rfl⟩
  have hmid : Mid codec s₀ b w₁ c := by
    rw [hw₁]
    exact ⟨h.path.step (.soil w c h.active), h.inside, h.configuring, h.active⟩
  have hs₁ : w₁.st.status = w.st.status := by rw [hw₁]; rfl
  have hsound₁ : Sound w₁ := by rw [hw₁]; exact hsound
  have hadm₁ : Admitted i c w₁.st w₁.log := by rw [hw₁]; exact hadm
  have htrail : w₁.st.trail = w.st.trail := by rw [hw₁]; rfl
  unfold commence
  rw [holds_bind, holds_write, ← hw₁]
  dsimp only
  rw [holds_bind]
  refine holds_activeCall hmid ?_
  dsimp only
  unfold onException
  rw [holds_bind, holds_catching]
  show Holds _ ctx i (launch codec c.request c.route >>= fun a => pure (some a)) _ w₁
  rw [holds_bind]
  refine holds_launch hmid hadm₁ (fun op a w₂ hop hbeg hi => ?_) fun code => ?_
  · -- it was begun
    obtain ⟨x, hmid₂, hf₂⟩ := hmid.invoked hi
    obtain ⟨c₂, hc₂⟩ : ∃ c₂, c₂ = { c with cancelRequested := c.cancelRequested || x } := ⟨_, rfl⟩
    rw [← hc₂] at hmid₂
    have hsame : SameCall c c₂ := by rw [hc₂]; exact ⟨rfl, rfl, rfl, rfl⟩
    have hsound₂ : Sound w₂ := hsound₁.invoked hi hf₂
    obtain ⟨d, y, hst₂⟩ := hi.flags
    have hs₂ : w₂.st.status = w.st.status := by rw [hst₂]; exact hs₁
    have htrail₂ : w₂.st.trail = w.st.trail := by rw [hst₂]; exact htrail
    have hu₂ : w₂.st.client.unclean = true := by rw [hst₂]; exact hadm₁.unclean
    have hidle₂ : c₂.job = none := hsame.job.trans hadm.idle
    have hnot : ∀ id f, .finishing id (.failure f) ∈ w₂.st.trail → f.code ≠ .cleanup := by
      intro id f hm hcode
      rw [htrail₂] at hm
      exact hdirty ⟨id, f, hm, hcode⟩
    obtain ⟨s, rest, hlog, howed, e, he, hact, hactive⟩ := hi.begun
    have hrest : debts rest = [] := (howed hbeg).trans hadm₁.owed
    -- a job, or another object, is the call's now
    have hadopt : (∀ code, a ≠ .remote code) → ∀ k : Option Code → GM digest Unit,
        (∀ code, k (some code) = fin (.failure (c.failure code))) → k none = pure () →
          Holds (gatewayContract codec s₀) ctx i
            (do change fun c => { c with job := a.toJob }
                k (← interruption)) (Done codec s₀ b w) w₂ := by
      intro ha k hsome hnone
      obtain ⟨w₃, hw₃⟩ : ∃ w₃, w₃ = w₂.put (w₂.st.onClient
        (.change fun call => { call with job := a.toJob })) := ⟨_, rfl⟩
      have hpath₃ : Path codec s₀ w₃ := by
        rw [hw₃]
        refine hi.path.step (.adopt w₂ i c₂ op a s rest hmid₂.active hidle₂ hlog hbeg ha hrest hu₂ hnot ?_)
        have hlaunch : Launches codec c₂ op := by
          unfold Launches at hop ⊢
          rw [hsame.route, hsame.request]
          exact hop
        exact ⟨e, he, op, hact, hlaunch, c, hactive.trans hmid.active, hsame.request.symm, hsame.route.symm⟩
      have hmid₃ : Mid codec s₀ b w₃ { c₂ with job := a.toJob } := by
        rw [hw₃] at hpath₃ ⊢
        exact hmid₂.change hpath₃
      have hs₃ : w₃.st.status = w.st.status := by rw [hw₃]; exact hs₂
      have hsound₃ : Sound w₃ := by rw [hw₃]; exact hsound₂
      show Holds _ ctx i (Prog.write _ >>= _) _ _
      rw [holds_bind, holds_write, ← hw₃]
      dsimp only
      rw [holds_bind]
      refine holds_interruption hmid₃ (fun w₄ c₄ g hf _ _ _ => ?_) (fun code w₄ c₄ g hf => ?_)
        fun w₄ hb => ?_
      · show Holds _ ctx i (k none) _ w₄
        rw [hnone]
        exact g.toMid.done (g.quiet.status.trans hs₃) (hsound₃.quiet g.quiet hf) ()
      · show Holds _ ctx i (k (some code)) _ w₄
        rw [hsome]
        exact hfin.fail g.toMid (g.same.route.trans hsame.route) (g.quiet.status.trans hs₃) hr
          fun hcode => hsound₃.quiet g.quiet (hf hcode)
      · exact (hb.from hs₃).done
    cases a with
    | raised e =>
      show Holds _ ctx i (if e = .interrupt then .fail e else pure none) _ w₂
      by_cases he : e = .interrupt
      · subst he
        rw [if_pos rfl]
        exact ((hmid.broken hi).from hs₁).done
      · rw [if_neg he]
        exact hfin.fail hmid₂ hsame.route hs₂ hr fun _ => hsound₂
    | remote code =>
      show Holds _ ctx i (Prog.write _ >>= _) _ w₂
      rw [holds_bind, holds_write]
      dsimp only
      have hdebts : debts w₂.log = [] := by
        rw [hlog, debts_begin rest i _ s hbeg]
        exact hrest
      have hpath₃ := hi.path.step (.absolve w₂ c₂ hmid₂.active hidle₂ hdebts hnot)
      exact hfin.fail ⟨hpath₃, hmid₂.inside, hmid₂.configuring, hmid₂.active⟩ hsame.route hs₂ hr
        fun _ => hsound₂
    | _ =>
      dsimp only [Answer.outcome]
      rw [holds_pure]
      exact hadopt (by simp) _ (fun _ => rfl) rfl
  · -- the request cannot be written
    exact hfin.fail hmid rfl hs₁ hr fun _ => hsound₁

/-- The provider check looks at neither the budget nor the provider of the original request. -/
theorem checkProvider_routed (h : SameCall c c') (p : Provider) (version : ℤ) :
    checkProvider c'.routed p version = checkProvider c.routed p version := by
  unfold checkProvider Call.routed
  rw [h.route, h.request]
  rfl

/-- **Everything is admitted.** -/
theorem Ready.admitted (h₀ : Fresh s₀) (h : Ready codec s₀ i b w c)
    (henabled : w.st.client.disabled = false) (hwanted : c.cancelRequested = false)
    (hrouted : c.request = c.routed)
    (hcheck : checkProvider c.request c.route.provider w.st.client.catalogVersion = .ok ())
    (htime : InTime c) (hpermit : Permits i c w.st w.log)
    (hpeer : ∀ k, c.route = .host k → ∃ e ∈ w.log, e.frame = i ∧
      e.act = .reply (.peer k.transport) (.text k.endpoint.peerIdentity)) :
    Admitted i c (w.st.onClient (.soil true)) w.log where
  active := h.active
  idle := h.idle
  owed := ((h.path.books h₀).clean h.clean).1
  unclean := rfl
  enabled := henabled
  wanted := hwanted
  routed := hrouted
  provider := hcheck
  time := htime
  permit := hpermit
  host k hk := by
    obtain ⟨hfault, htimely, hask, hbeg⟩ := h.host k hk
    refine ⟨hfault, htimely, ?_, hbeg, hpeer k hk⟩
    rcases hask with hask | hask
    · exact hask
    · have := hask c h.active
      rw [hwanted] at this
      cases this
  vm l hl := ⟨h.sound, h.vm l hl⟩

/-- The request, as the route gets it. -/
theorem Ready.route (h : Ready codec s₀ i b w c) :
    Ready codec s₀ i b (w.put (w.st.onClient (.change fun call => { call with request := c.routed })))
      { c with request := c.routed } where
  toMid := h.toMid.change (h.path.step (.route w c h.active h.idle))
  idle := h.idle
  clean := h.clean
  sound := h.sound
  host k hk := by
    obtain ⟨hfault, htimely, hask, hbeg⟩ := h.host k hk
    refine ⟨hfault, htimely, hask.imp_right fun hd => ?_, hbeg⟩
    have hq : Quiet w (w.put (w.st.onClient (.change fun call => { call with request := c.routed }))) :=
      quiet_change fun _ => rfl
    exact hq.doomed hd
  vm l hl := h.vm l hl

/-- **`_begin`, from the second look at the clock on.** -/
theorem holds_authorize {r : Route} {fin : Value → GM digest Unit} (h₀ : Fresh s₀)
    (hfin : Finishes codec s₀ ctx i b r fin) (h : Ready codec s₀ i b w c) (hr : c.route = r)
    (hcheck : checkProvider c.routed c.route.provider w.st.client.catalogVersion = .ok ())
    (hpeer : ∀ k, c.route = .host k → ∃ e ∈ w.log, e.frame = i ∧
      e.act = .reply (.peer k.transport) (.text k.endpoint.peerIdentity)) :
    Holds (gatewayContract codec s₀) ctx i (authorize codec fin) (Done codec s₀ b w) w := by
  unfold authorize
  rw [holds_bind]
  refine holds_interruption h.toMid (fun w₁ c₁ g₁ hf₁ hwant₁ htime ht₁ => ?_)
    (fun code w₁ c₁ g₁ hf₁ => ?_) fun w₁ hb => hb.done
  · have h₁ := h.goes g₁ hf₁ ht₁
    dsimp only
    rw [holds_bind]
    refine holds_activeCall g₁.toMid ?_
    show Holds _ ctx i (Prog.write _ >>= _) _ w₁
    rw [holds_bind, holds_write]
    dsimp only
    obtain ⟨w₂, hw₂⟩ : ∃ w₂, w₂ = w₁.put (w₁.st.onClient
        (.change fun call => { call with request := c₁.routed })) := ⟨_, rfl⟩
    obtain ⟨c₂, hc₂⟩ : ∃ c₂, c₂ = { c₁ with request := c₁.routed } := ⟨_, rfl⟩
    have h₂ : Ready codec s₀ i b w₂ c₂ := by rw [hw₂, hc₂]; exact h₁.route
    have hs₂ : w₂.st.status = w.st.status := by rw [hw₂]; exact g₁.quiet.status
    have hver₂ : w₂.st.client.catalogVersion = w.st.client.catalogVersion := by
      rw [hw₂]
      show w₁.st.client.catalogVersion = _
      rw [g₁.quiet.client]
    have hreq₂ : c₂.request = c₁.routed := by rw [hc₂]
    have hroute₂ : c₂.route = c₁.route := by rw [hc₂]
    have hpeer₂ : ∀ e ∈ w.log, e ∈ w₂.log := by
      rw [hw₂]
      exact fun e he => g₁.quiet.mem he
    have hprog : permitted c₁.route.provider c₁.routed.service (c₁.lastTime.getD 0) =
        (permitted c₂.route.provider c₂.request.service (c₂.lastTime.getD 0) : GM digest Bool) := by
      rw [hc₂]
    rw [← hw₂, holds_bind, hprog]
    -- whatever the permit said: the call ends, or it goes on
    have hstop : ∀ w₃ c₃, Waits codec s₀ b i w₂ c₂ w₃ c₃ →
        Holds (gatewayContract codec s₀) ctx i (fin (.failure (c₃.failure .canceled)))
          (Done codec s₀ b w) w₃ := by
      intro w₃ c₃ g₃
      have hroute₃ : c₃.route = r := by
        rw [g₃.same.route, hroute₂, g₁.same.route]
        exact hr
      exact hfin.fail g₃.toMid rfl (g₃.quiet.status.trans hs₂) hroute₃ fun hcode => by cases hcode
    refine holds_permitted h₂.toMid (fun w₃ c₃ g₃ hpermit => ?_) (fun w₃ c₃ g₃ => ?_)
      fun w₃ hb => (hb.from hs₂).done
    · dsimp only
      rw [holds_bind]
      refine holds_activeCall g₃.toMid ?_
      dsimp only
      rw [holds_bind, holds_read]
      dsimp only
      by_cases hcond : (!true || w₃.st.client.disabled || c₃.cancelRequested) = true
      · rw [if_pos hcond]
        exact hstop w₃ c₃ g₃
      · rw [if_neg hcond]
        have hgo : w₃.st.client.disabled = false ∧ c₃.cancelRequested = false := by
          simpa using hcond
        have h₃ := h₂.waits g₃
        have hreq₃ : c₃.request = c₁.routed := g₃.same.request.trans hreq₂
        have hroute₃ : c₃.route = c₁.route := g₃.same.route.trans hroute₂
        have hrem : c₃.remaining = c₁.remaining := by
          unfold Call.remaining
          rw [g₃.last, g₃.deadline, hc₂]
        have hrouted : c₃.request = c₃.routed := by
          unfold Call.routed
          rw [hreq₃, hroute₃, hrem]
          rfl
        have hver₃ : w₃.st.client.catalogVersion = w.st.client.catalogVersion := by
          rw [g₃.quiet.client]
          exact hver₂
        have hcheck₃ : checkProvider c₃.request c₃.route.provider w₃.st.client.catalogVersion = .ok () := by
          rw [hreq₃, hroute₃, hver₃, checkProvider_routed g₁.same, g₁.same.route]
          exact hcheck
        have htime₃ : InTime c₃ := by
          unfold InTime
          rw [g₃.last, g₃.deadline, hc₂]
          exact htime
        have hpeer₃ : ∀ k, c₃.route = .host k → ∃ e ∈ w₃.log, e.frame = i ∧
            e.act = .reply (.peer k.transport) (.text k.endpoint.peerIdentity) := by
          intro k hk
          obtain ⟨e, he, hx⟩ := hpeer k (by rw [← hk, hroute₃, g₁.same.route])
          exact ⟨e, g₃.quiet.mem (hpeer₂ e he), hx⟩
        have hadm := h₃.admitted h₀ hgo.1 hgo.2 hrouted hcheck₃ htime₃ hpermit hpeer₃
        have hdirty : ¬ Dirty w₃.st := ((h₃.path.books h₀).clean h₃.clean).2
        rw [← hreq₃]
        refine (holds_commence hfin g₃.toMid ?_ h₃.sound hdirty hadm).mono fun r w' hd =>
          hd.from (g₃.quiet.status.trans hs₂)
        rw [hroute₃, g₁.same.route]
        exact hr
    · dsimp only
      rw [holds_bind]
      refine holds_activeCall g₃.toMid ?_
      dsimp only
      rw [holds_bind, holds_read]
      exact hstop w₃ c₃ g₃
  · dsimp only
    rw [holds_bind]
    refine holds_activeCall g₁.toMid ?_
    exact hfin.fail g₁.toMid rfl g₁.quiet.status (g₁.same.route.trans hr) fun hcode =>
      h.sound.quiet g₁.quiet (hf₁ hcode)

/-- **`_begin`.** -/
theorem holds_attempting {fin : Value → GM digest Unit} {r : Route} (h₀ : Fresh s₀)
    (hfin : Finishes codec s₀ ctx i b r fin) (h : Ready codec s₀ i b w c) (hr : c.route = r) :
    Holds (gatewayContract codec s₀) ctx i (attempt codec fin) (Done codec s₀ b w) w := by
  unfold attempt
  rw [holds_bind]
  refine holds_interruption h.toMid (fun w₁ c₁ g₁ hf₁ _ _ ht₁ => ?_)
    (fun code w₁ c₁ g₁ hf₁ => ?_) fun w₁ hb => hb.done
  · have h₁ := h.goes g₁ hf₁ ht₁
    dsimp only
    rw [holds_bind]
    refine holds_activeCall g₁.toMid ?_
    dsimp only
    rw [holds_bind]
    refine holds_checked g₁.toMid (fun w₂ c₂ g₂ hcheck hpeer => ?_) (fun code w₂ c₂ g₂ => ?_)
      fun w₂ hb => (hb.from g₁.quiet.status).done
    · have h₂ := h₁.waits g₂
      have hcheck₂ : checkProvider c₂.routed c₂.route.provider w₂.st.client.catalogVersion = .ok () := by
        rw [checkProvider_routed g₂.same, g₂.same.route, g₂.quiet.client]
        exact hcheck
      refine (holds_authorize h₀ hfin h₂ ((g₂.same.route.trans g₁.same.route).trans hr) hcheck₂
        fun k hk => hpeer k (g₂.same.route ▸ hk)).mono fun r w' hd => ?_
      exact hd.from (g₂.quiet.status.trans g₁.quiet.status)
    · exact hfin.fail g₂.toMid g₂.same.route (g₂.quiet.status.trans g₁.quiet.status)
        (g₁.same.route.trans hr) fun _ => h₁.sound.quiet g₂.quiet g₂.fault
  · dsimp only
    rw [holds_bind]
    refine holds_activeCall g₁.toMid ?_
    exact hfin.fail g₁.toMid rfl g₁.quiet.status (g₁.same.route.trans hr) fun hcode =>
      h.sound.quiet g₁.quiet (hf₁ hcode)

end Gateway

end Arhugula
