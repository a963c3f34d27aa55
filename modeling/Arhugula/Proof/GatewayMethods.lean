import Arhugula.Proof.GatewayFinish

/-!
# The methods of the gateway keep its contract

Each public method, called outside of callbacks, stays on a path of steps whatever the
callbacks that it makes do (`kept_start` and so on), and so does each one that a callback
calls (`nested_kept`). So every reachable world is on a path of steps (`reachable_path`).
-/

namespace Arhugula

namespace Gateway

open Reentrant Providers

variable {digest : Manifest → String} {codec : Codec} {s₀ : Sys digest} {ctx : List (ℕ × Op)}
  {i : ℕ} {b : Bool} {w w' : GWorld digest} {c c' : Call}

/-! ## What is left to show -/

/-- How a call of `m` made in `w` has to end. -/
def Ended (codec : Codec) (s₀ : Sys digest) (w : GWorld digest) (r : Except Exc Return)
    (w' : GWorld digest) : Prop :=
  Path codec s₀ (w'.push w.next (.ret r)) ∧ Settled (w'.push w.next (.ret r))

/-- Outside of callbacks, nothing is owed to the activations that wait. -/
theorem kept_of_ended {m : Method} (hin : w.st.client.insideCallback = false)
    (h : Holds (gatewayContract codec s₀) ctx w.next (body codec m) (Ended codec s₀ w) (w.enter m)) :
    Holds (gatewayContract codec s₀) ctx w.next (body codec m)
      (fun r w' => (gatewayContract codec s₀).Inv (w'.push w.next (.ret r)) ∧
        (gatewayContract codec s₀).Rel ctx w (w'.push w.next (.ret r))) (w.enter m) := by
  refine h.mono fun r w' hr => ⟨hr, fun hcontra => ?_⟩
  rw [hin] at hcontra
  cases hcontra

theorem Settled.sound (h : Settled w) (hin : w.st.client.insideCallback = false)
    (ha : w.st.client.active.isSome) : Sound w := by
  by_cases hd : Disturbed w.log
  · exact .inr hd
  · exact .inl (h hin hd ha)

theorem settled_of_sound (h : w.st.client.active.isSome → Sound w) : Settled w := by
  intro _ hd ha
  rcases h ha with h | h
  · exact h
  · exact absurd h hd

/-- A later world whose client has the same call and the same fault. -/
theorem Settled.later (h : Settled w) (hl : ∀ e ∈ w.log, e ∈ w'.log)
    (hin : w'.st.client.insideCallback = w.st.client.insideCallback)
    (ha : w'.st.client.active = w.st.client.active)
    (hf : w'.st.client.fault = w.st.client.fault) : Settled w' := by
  intro hin' hd ha'
  rw [hf]
  refine h (hin ▸ hin') (fun ⟨e, he, hx⟩ => hd ⟨e, hl e he, hx⟩) (ha ▸ ha')

/-- A call that is refused ends as it has to. -/
theorem ended_refused {m : Method} (e : Exc) (hpath : Path codec s₀ w) (hs : Settled w)
    (hlog : ∀ e ∈ w.log, e.frame < w.next) (hp : m ≠ .poll) :
    Ended codec s₀ w (.error e) (w.enter m) := by
  refine ⟨path_refused e hpath hlog hp, hs.later (fun x hx => ?_) rfl rfl rfl⟩
  exact List.mem_cons_of_mem _ (List.mem_cons_of_mem _ hx)

/-- A body, and which activation it belongs to. -/
theorem Holds.only {α : Type} {p : GM digest α} {Q : Except Exc α → GWorld digest → Prop} {m : Method}
    {s : Sys digest} (h : Holds (gatewayContract codec s₀) ctx i p Q w) (ho : Only i m s w.log) :
    Holds (gatewayContract codec s₀) ctx i p (fun r w' => Q r w' ∧ Only i m s w'.log) w :=
  h.invoked (P := fun m' s' => m' = m ∧ s' = s) ho

/-- A call ends as `Ends` says. -/
theorem ended_of_ends {m : Method} {r : Except Exc Return} (hpath : Path codec s₀ w')
    (hsound : w'.st.client.active.isSome → Sound w') (ho : Only w.next m w.st w'.log)
    (hr : ∀ t, r ≠ .ok (.terminal t)) (he : Ends m w.st w'.st r) : Ended codec s₀ w r w' := by
  refine ⟨hpath.step (.ret w' w.next r hr fun e hmem hf m' hact => ?_), settled_of_sound fun ha => ?_⟩
  · obtain ⟨rfl, hst⟩ := ho e hmem hf m' hact
    rw [hst]
    exact he
  · rcases hsound ha with h | ⟨e, hmem, hx⟩
    · exact .inl h
    · exact .inr ⟨e, List.mem_cons_of_mem _ hmem, hx⟩

/-! ## Operations of the configuration -/

theorem Operates.client {m : Method} {s s' : Sys digest} {r : Except Exc Return} (h : Operates m s s' r) :
    s'.client.active = s.client.active ∧ s'.client.fault = s.client.fault ∧
      s'.client.insideCallback = s.client.insideCallback := by
  cases h <;> exact ⟨rfl, rfl, rfl⟩

theorem ended_operates {m : Method} {s : Sys digest} {r : Except Exc Return} (hpath : Path codec s₀ w)
    (hs : Settled w) (hm : m.operates = true) (h : Operates m w.st s r) :
    Ended codec s₀ w r ((w.enter m).put s) := by
  obtain ⟨ha, hf, hin⟩ := h.client
  refine ⟨(hpath.step (.enter w m)).step (.operate _ w.next m s r w.log hm rfl h), ?_⟩
  refine hs.later (fun x hx => ?_) hin ha hf
  exact List.mem_cons_of_mem _ (List.mem_cons_of_mem _ hx)

/-- The flag of a transaction. -/
def Client.configure (b : Bool) (c : Client) : Client := { c with configuring := b }

/-- **A transaction of the configuration**, outside of callbacks. -/
theorem holds_transact {α : Type} {f : Configuration digest → GM digest α}
    {Q : Except Exc α → GWorld digest → Prop} (hin : w.st.client.insideCallback = false)
    (hrefused : ∀ e, Q (.error e) w)
    (hrun : ∀ c, w.st.config = some c → w.st.client.owner = some .configuration →
      w.st.client.configuring = false → Holds (gatewayContract codec s₀) ctx i (f c)
        (fun r w' => Q r (w'.put (w'.st.onClient (.configure false))))
        (w.put (w.st.onClient (.configure true)))) :
    Holds (gatewayContract codec s₀) ctx i (transact f) Q w := by
  unfold transact
  rw [holds_bind, holds_read]
  dsimp only
  cases hc : w.st.config with
  | none => exact hrefused _
  | some c =>
    dsimp only
    unfold configuration
    rw [holds_bind, holds_requireOwner]
    split
    · rename_i howner
      dsimp only
      rw [holds_bind, holds_read]
      dsimp only
      by_cases hbusy : (w.st.client.insideCallback || w.st.client.configuring) = true
      · rw [if_pos hbusy]
        exact hrefused _
      · rw [if_neg hbusy]
        have hconf : w.st.client.configuring = false := by
          rw [hin] at hbusy
          simpa using hbusy
        rw [holds_bind, holds_write]
        dsimp only
        rw [holds_lastly, holds_bind, holds_read]
        have hc' : ∀ f : Client → Client, (w.put (w.st.onClient f)).st.config = some c := fun _ => hc
        dsimp only
        rw [hc']
        exact (hrun c hc howner.symm hconf).mono fun r w' hr => by cases r <;> exact hr
    · exact hrefused _

/-- Within a transaction the configuration is changed, and the flag is cleared at its end. -/
theorem configure_back {s : Sys digest} (h : s.client.configuring = false)
    (cfg : Option (Configuration digest)) :
    ({ s.onClient (.configure true) with config := cfg } : Sys digest).onClient (.configure false) =
      { s with config := cfg } := by
  obtain ⟨⟨_, _, _, _, _, _, _, _, _, configuring, _, _, _⟩, _, _⟩ := s
  cases h
  rfl

theorem configure_same {s : Sys digest} (h : s.client.configuring = false) :
    (s.onClient (.configure true)).onClient (.configure false) = s := configure_back h s.config

theorem holds_ofText {α : Type} {x : Except String α} {Q : Except Exc α → GWorld digest → Prop}
    (hok : ∀ a, x = .ok a → Q (.ok a) w) (herr : ∀ text, Q (.error (.configuration text)) w) :
    Holds (gatewayContract codec s₀) ctx i (ofText x) Q w := by
  cases x with
  | ok a => exact hok a rfl
  | error text => exact herr text

/-- The operation `m` is: compute a new configuration, and publish it. -/
def Publishes {β : Type} (codec : Codec) (m : Method) (f : Configuration digest → Except String β)
    (g : β → Configuration digest) (v : β → Return) : Prop :=
  (body codec m : GM digest Return) = transact fun c => do
    let x ← ofText (f c)
    setConfig (g x)
    pure (v x)

theorem kept_publishes {m : Method} {β : Type} {f : Configuration digest → Except String β}
    {g : β → Configuration digest} {v : β → Return} (hpath : Path codec s₀ w) (hs : Settled w)
    (hin : w.st.client.insideCallback = false) (hm : m.operates = true) (hbody : Publishes codec m f g v)
    (hop : ∀ c x, w.st.config = some c → f c = .ok x →
      Operates m w.st { w.st with config := some (g x) } (.ok (v x))) :
    Holds (gatewayContract codec s₀) ctx w.next (body codec m) (Ended codec s₀ w) (w.enter m) := by
  unfold Publishes at hbody
  rw [hbody]
  have hrefused : ∀ e, Ended codec s₀ w (.error e) (w.enter m) :=
    fun e => ended_operates hpath hs hm (.refused m e)
  refine holds_transact hin hrefused fun c hc _ hconf => ?_
  replace hconf : w.st.client.configuring = false := hconf
  rw [holds_bind]
  refine holds_ofText (fun x hx => ?_) fun text => ?_
  · have h : Ended codec s₀ w (.ok (v x)) ((w.enter m).put
        ({ w.st.onClient (.configure true) with config := some (g x) }.onClient (.configure false))) := by
      rw [configure_back hconf]
      exact ended_operates hpath hs hm (hop c x hc hx)
    exact h
  · have h : Ended codec s₀ w (.error (.configuration text)) ((w.enter m).put
        ((w.st.onClient (.configure true)).onClient (.configure false))) := by
      rw [configure_same hconf]
      exact hrefused _
    exact h

/-- `restore`, up to the candidate. -/
def restored (revision : ℕ) (evidence : List Evidence) (c : Configuration digest) :
    Except String (Providers.Candidate digest × Configuration digest) :=
  match c.history.find? fun item => item.1 = revision with
  | none => .error "restore-revision"
  | some item => c.stage item.2.manifests item.2.host item.2.localRoute item.2.policy evidence

theorem publishes_restore (revision : ℕ) (evidence : List Evidence) :
    Publishes codec (.restore revision evidence)
      (restored revision evidence : Configuration digest → _) Prod.snd fun x => .candidate x.1.id := by
  unfold Publishes restored body
  dsimp only
  congr 1
  funext c
  cases c.history.find? fun item => item.1 = revision with
  | none => rfl
  | some item => rfl

theorem kept_configure (hpath : Path codec s₀ w) (hs : Settled w) :
    Holds (gatewayContract codec s₀) ctx w.next (body codec .configure) (Ended codec s₀ w)
      (w.enter .configure) := by
  have hrefused : ∀ e, Ended codec s₀ w (.error e) (w.enter .configure) :=
    fun e => ended_operates hpath hs rfl (.refused .configure e)
  refine holds_bind.2 ?_
  unfold configure claimConfiguration
  rw [holds_bind, holds_bind, holds_read]
  dsimp only
  split
  · exact hrefused _
  · rename_i hfree
    have hidle : w.st.client.owner = none ∧ w.st.client.active = none ∧ w.st.client.terminal = none := by
      have : (((w.st.client.owner = none ∧ w.st.client.active = none) ∧ w.st.client.terminal = none) ∧
          w.st.client.insideCallback = false) ∧ w.st.client.configuring = false := by simpa using hfree
      exact ⟨this.1.1.1.1, this.1.1.1.2, this.1.1.2⟩
    cases hf : w.st.client.fault with
    | some code =>
      rw [show (w.enter .configure).st.client.fault = some code from hf]
      exact hrefused _
    | none =>
      rw [show (w.enter .configure).st.client.fault = none from hf]
      exact ended_operates hpath hs rfl (.configure ⟨hidle.2.1, hidle.2.2, hf⟩ hidle.1)

theorem configure_rebind {s : Sys digest} (h : s.client.configuring = false) (host : Host)
    (localRoute : Option Local) (permit : Option Permit) (cfg cfg' : Option (Configuration digest)) :
    ({ ({ s.onClient (.configure true) with config := cfg } : Sys digest).onClient
        (.rebind host localRoute permit) with config := cfg' } : Sys digest).onClient (.configure false) =
      { s.onClient (.rebind host localRoute permit) with config := cfg' } := by
  obtain ⟨⟨_, _, _, _, _, _, _, _, _, configuring, _, _, _⟩, _, _⟩ := s
  cases h
  rfl

/-- **`reconfigure`.** -/
theorem holds_reconfigure {host : Option Host} {localRoute : Option Local}
    {permit : Option (Option Permit)} {owner : Option Owner} {Q : Except Exc Unit → GWorld digest → Prop}
    (hrefused : ∀ e, Q (.error e) w)
    (hok : ∀ h p, host = some h → permit = some p → Idle w.st.client → owner = w.st.client.owner →
      Q (.ok ()) (w.put (w.st.onClient (.rebind h localRoute p)))) :
    Holds (gatewayContract codec s₀) ctx i (reconfigure host localRoute permit owner) Q w := by
  unfold reconfigure
  rw [holds_bind, holds_requireOwner]
  split
  · rename_i howner
    dsimp only
    rw [holds_bind, holds_read]
    dsimp only
    split
    · exact hrefused _
    · rename_i hbusy
      have hidle : w.st.client.active = none ∧ w.st.client.terminal = none := by
        have : (w.st.client.active = none ∧ w.st.client.terminal = none) ∧
            w.st.client.insideCallback = false := by simpa using hbusy
        exact this.1
      cases hf : w.st.client.fault with
      | some code => exact hrefused _
      | none =>
        cases host with
        | none => cases permit <;> exact hrefused _
        | some h =>
          cases permit with
          | none => exact hrefused _
          | some p => exact hok h p rfl rfl ⟨hidle.1, hidle.2, hf⟩ howner
  · exact hrefused _

theorem kept_activate (candidate receipt : ℕ) (now : Option ℤ) (hpath : Path codec s₀ w)
    (hs : Settled w) (hin : w.st.client.insideCallback = false) :
    Holds (gatewayContract codec s₀) ctx w.next (body codec (.activate candidate receipt now))
      (Ended codec s₀ w) (w.enter (.activate candidate receipt now)) := by
  have hrefused : ∀ e, Ended codec s₀ w (.error e) (w.enter (.activate candidate receipt now)) :=
    fun e => ended_operates hpath hs rfl (.refused _ e)
  refine holds_bind.2 ?_
  unfold activate
  refine holds_transact hin hrefused fun c hc howner hconf => ?_
  replace hconf : w.st.client.configuring = false := hconf
  replace howner : w.st.client.owner = some .configuration := howner
  replace hc : w.st.config = some c := hc
  -- refused before the clock is read
  have hearly : ∀ e, Ended codec s₀ w (.error e) ((w.enter (.activate candidate receipt now)).put
      ((w.st.onClient (.configure true)).onClient (.configure false))) := by
    intro e
    rw [configure_same hconf]
    exact hrefused e
  -- refused after that
  have hlate : ∀ e, Ended codec s₀ w (.error e) ((w.enter (.activate candidate receipt now)).put
      ({ w.st.onClient (.configure true) with config := some (c.time now).2 }.onClient
        (.configure false))) := by
    intro e
    rw [configure_back hconf]
    exact ended_operates hpath hs rfl (.late e hc)
  rw [holds_bind]
  refine holds_ofText (fun x hx => ?_) fun text => hearly _
  show Holds _ ctx w.next (Prog.write _ >>= _) _ _
  rw [holds_bind, holds_write]
  dsimp only
  rw [holds_bind]
  refine holds_ofText (fun u htime => ?_) fun text => hlate _
  obtain ⟨t, rfl⟩ : ∃ t, now = some t := by
    cases now with
    | none => cases htime
    | some t => exact ⟨t, rfl⟩
  dsimp only
  rw [holds_bind]
  refine holds_ofText (fun routes hroutes => ?_) fun text => hlate _
  dsimp only
  rw [holds_bind]
  refine holds_reconfigure (fun e => hlate e) fun host permit hh hp hidle _ => ?_
  cases hh
  cases hp
  have h : Ended codec s₀ w (.ok (.revision (c.state.revision + 1)))
      ((w.enter (.activate candidate receipt (some t))).put
        (({ ({ w.st.onClient (.configure true) with config := some (c.time (some t)).2 } : Sys digest).onClient
            (.rebind routes.1 routes.2 (some .configuration)) with
          config := some ((c.time (some t)).2.publish x receipt) } : Sys digest).onClient (.configure false))) := by
    rw [configure_rebind hconf]
    exact ended_operates hpath hs rfl (.activate ⟨hidle.active, hidle.terminal, hidle.fault⟩ howner hc hx
      htime hroutes)
  exact h

/-- **Every operation of the configuration** ends as it has to. -/
theorem kept_operations {m : Method} (hpath : Path codec s₀ w) (hs : Settled w)
    (hin : w.st.client.insideCallback = false) (hm : m.operates = true) :
    Holds (gatewayContract codec s₀) ctx w.next (body codec m) (Ended codec s₀ w) (w.enter m) := by
  cases m with
  | configure => exact kept_configure hpath hs
  | stage parts =>
    refine kept_publishes (f := fun c => c.stage parts.manifests parts.host parts.localRoute
      parts.policy parts.evidence) (g := Prod.snd) (v := fun x => .candidate x.1.id) hpath hs hin rfl rfl ?_
    rintro c ⟨x, c'⟩ hc h
    exact .stage hc h
  | restore revision evidence =>
    refine kept_publishes hpath hs hin rfl (publishes_restore revision evidence) ?_
    rintro c ⟨x, c'⟩ hc h
    unfold restored at h
    split at h
    · cases h
    · rename_i item hitem
      exact .restore hc hitem h
  | observe candidate providerId status observedAtMs =>
    refine kept_publishes (f := fun c => c.observe candidate providerId status observedAtMs)
      (g := fun c => c) (v := fun _ => .unit) hpath hs hin rfl rfl ?_
    exact fun c c' hc h => .observe hc h
  | approve candidate bootstrap =>
    refine kept_publishes (f := fun c => c.approve candidate bootstrap)
      (g := Prod.snd) (v := fun x => .receipt x.1) hpath hs hin rfl rfl ?_
    rintro c ⟨x, c'⟩ hc h
    exact .approve hc h
  | reject candidate =>
    refine kept_publishes (f := fun c => c.reject candidate) (g := fun c => c) (v := fun _ => .unit)
      hpath hs hin rfl rfl ?_
    exact fun c c' hc h => .reject hc h
  | activate candidate receipt now => exact kept_activate candidate receipt now hpath hs hin
  | _ => cases hm

/-! ## Calls -/

theorem Done.ended {α : Type} {m : Method} {w₁ : GWorld digest} {r : Except Exc α}
    {v : α → Return} (h : Done codec s₀ b w₁ r w') (ho : Only w.next m w.st w'.log)
    (hm : ∀ r : Except Exc Return, (∀ e, r = .error e → e = .interrupt) → Ends m w.st w'.st r)
    (hv : ∀ a t, v a ≠ .terminal t) : Ended codec s₀ w (r.map v) w' := by
  refine ended_of_ends h.path h.sound ho ?_ (hm _ fun e he => ?_)
  · intro t ht
    cases r with
    | ok a => exact hv a t (Except.ok.inj ht)
    | error e => cases ht
  · cases r with
    | ok a => cases he
    | error e' =>
      cases he
      exact h.raises e rfl

/-- A call that was just accepted. -/
theorem ready_accepted {m : Method} {r : Request} (h₀ : Fresh s₀) (hpath : Path codec s₀ w)
    (hlog : ∀ e ∈ w.log, e.frame < w.next) (hidle : Idle w.st.client)
    (hin : w.st.client.insideCallback = false) (hd : w.st.client.disabled = false)
    (hr : r.requestId ∉ w.st.client.history) (hl : w.st.client.history.length < historyLimit) :
    Ready codec s₀ w.next w.st.client.configuring
      ((w.enter m).put ((w.st.onClient (.accept r)).mark (.accepted r.requestId)))
      (.new r w.st.client.host) := by
  have hnone : ∀ e ∈ (w.enter m).log, e.frame = w.next → ∀ a, e.act ≠ .reply .clock a := by
    intro e he hf a hact
    rcases List.mem_cons.1 he with rfl | he
    · cases hact
    · have := hlog e he
      omega
  refine ⟨⟨?_, hin, rfl, rfl⟩, rfl, (hpath.books h₀).idle hidle.active hidle.fault, .inl hidle.fault,
    fun k _ => ⟨hidle.fault, ?_, .inl ?_, ?_⟩, fun l hl => by cases hl⟩
  · exact (hpath.step (.enter w m)).step (.accept _ r hidle hd hr hl)
  · intro e he hf a hact
    exact absurd hact (hnone e he hf a)
  · exact ⟨[], _, w.log, m, rfl, rfl, rfl, fun x hx => by cases hx⟩
  · show begins (w.enter m).log r.requestId = []
    rw [World.enter_log, begins_other _ w.next w.st fun op h => by cases h]
    exact (hpath.tries h₀).fresh _ hr

theorem kept_start (request : Option Request) (h₀ : Fresh s₀) (hpath : Path codec s₀ w) (hs : Settled w)
    (hlog : ∀ e ∈ w.log, e.frame < w.next) (hin : w.st.client.insideCallback = false) :
    Holds (gatewayContract codec s₀) ctx w.next (body codec (.start request)) (Ended codec s₀ w)
      (w.enter (.start request)) := by
  have hrefused : ∀ e, Ended codec s₀ w (.error e) (w.enter (.start request)) :=
    fun e => ended_refused e hpath hs hlog (by simp)
  refine holds_bind.2 ?_
  unfold start
  rw [holds_bind, holds_read]
  dsimp only
  split
  · exact hrefused _
  rename_i hfree
  have hidle : w.st.client.active = none ∧ w.st.client.terminal = none := by
    have : ((w.st.client.active = none ∧ w.st.client.terminal = none) ∧
        w.st.client.insideCallback = false) ∧ w.st.client.configuring = false := by simpa using hfree
    exact this.1.1
  cases hf : w.st.client.fault with
  | some code =>
    rw [show (w.enter (.start request)).st.client.fault = some code from hf]
    exact hrefused _
  | none =>
    rw [show (w.enter (.start request)).st.client.fault = none from hf]
    dsimp only
    split
    · exact hrefused _
    rename_i hdisabled
    rw [holds_bind]
    refine holds_ofCode (fun raw _ => ?_) fun code _ => hrefused _
    dsimp only
    rw [holds_bind]
    refine holds_ofCode (fun r _ => ?_) fun code _ => hrefused _
    dsimp only
    split
    · exact hrefused _
    split
    · exact hrefused _
    split
    · exact hrefused _
    rename_i hreplay
    split
    · exact hrefused _
    rename_i hroom
    -- accepted
    have hfresh : r.requestId ∉ w.st.client.history := by
      intro hmem
      exact hreplay (List.contains_iff_mem.2 hmem)
    have hready := ready_accepted (m := .start request) h₀ hpath hlog ⟨hidle.1, hidle.2, hf⟩ hin
      (by simpa using hdisabled) hfresh (not_le.1 hroom)
    rw [holds_bind, holds_write]
    have hbegin : Holds _ ctx _ (beginCall codec) _ _ :=
      Holds.only (holds_beginCall h₀ hready) (only_enter hlog (.start request))
    refine hbegin.mono fun r' w' hdone => ?_
    obtain ⟨hdone, honly⟩ := hdone
    have h := hdone.ended (v := fun _ => Return.unit) honly (fun r hr code hcode => ?_) (by simp)
    · cases r' <;> exact h
    · cases hr _ hcode

/-- What a reply gives depends on the attempt only. -/
theorem received_same (h : SameCall c c') (incoming : Answer) :
    received codec c' incoming = received codec c incoming := by
  unfold received
  simp only [h.route, h.request, failure_route h.route]

/-- What is parsed as a failure is one of this attempt. -/
theorem parsed_failure {raw : Option Bytes} {f : Failure}
    (h : (match parseResponse codec raw c.request with
      | .ok (.output o) => Value.output o
      | .ok (.error code) => .failure (c.failure code)
      | .error code => .failure (c.failure code)) = .failure f) : f = c.failure f.code := by
  split at h <;> cases h
  · rfl
  · rfl

/-- A reply that is a failure is one of this attempt. -/
theorem received_failure {incoming : Answer} {f : Failure} (h : received codec c incoming = .failure f) :
    f = c.failure f.code := by
  have key : ∀ code, Value.failure (c.failure code) = .failure f → f = c.failure f.code := by
    intro code hcode
    cases hcode
    rfl
  unfold received at h
  dsimp only at h
  split at h
  · exact parsed_failure h
  · split at h
    · repeat' split at h
      all_goals first | exact key _ h | cases h
    · exact key _ h

/-- What the job of the call answered. -/
theorem holds_pollJob {Q : Except Exc (Except Code Answer) → GWorld digest → Prop}
    (h : Mid codec s₀ b w c)
    (hok : ∀ j a w' c', c.job = some j → Waits codec s₀ b i w c w' c' →
      (∃ e ∈ w'.log, e.act = .reply (.poll j) a ∧ ∃ c₀, e.st.client.active = some c₀ ∧ SameCall c c₀) →
      Q (.ok (.ok a)) w')
    (hfail : ∀ code w' c', Waits codec s₀ b i w c w' c' → Q (.ok (.error code)) w')
    (herr : ∀ w', Broken codec s₀ b w w' → Q (.error .interrupt) w') :
    Holds (gatewayContract codec s₀) ctx i (pollJob c) Q w := by
  unfold pollJob
  rw [holds_catching]
  cases hjob : c.job with
  | none => exact hfail _ w c h.waits
  | some j =>
    dsimp only
    show Holds _ ctx i (invoke (.poll j) >>= fun a => pure (Except.ok a)) _ w
    rw [holds_bind]
    refine holds_invoke_quiet rfl h.path h.inside fun a w' hi => ?_
    obtain ⟨c', hwaits⟩ := h.waits_invoked rfl (by simp) hi
    have hdone : Q (.ok (.ok a)) w' := by
      refine hok j a w' c' hjob hwaits ?_
      obtain ⟨s, s', new, hlog, -, ⟨d, x, hst⟩, -⟩ := hi.log
      rw [hlog]
      refine ⟨_, List.mem_cons_self, rfl, { c with cancelRequested := c.cancelRequested || x }, ?_, ?_⟩
      · dsimp only
        rw [hst]
        exact Client.flag_active (d := d) h.active
      · exact ⟨rfl, rfl, rfl, rfl⟩
    cases a with
    | raised e =>
      cases e with
      | interrupt => exact herr w' (h.broken hi)
      | gateway code => exact hfail code w' c' hwaits
      | configuration text => exact hfail _ w' c' hwaits
      | exception => exact hfail _ w' c' hwaits
    | _ => exact hdone

/-- **`poll`, for an active call.** -/
theorem holds_advanceCall (h₀ : Fresh s₀) (h : Mid codec s₀ b w c) (hsound : Sound w) :
    Holds (gatewayContract codec s₀) ctx i (advanceCall codec) (Done codec s₀ b w) w := by
  unfold advanceCall
  rw [holds_bind]
  refine holds_interruption h (fun w₁ c₁ g₁ hf₁ _ _ _ => ?_) (fun code w₁ c₁ g₁ hf₁ => ?_)
    fun w₁ hb => hb.done
  · have hsound₁ := hsound.quiet g₁.quiet hf₁
    dsimp only
    rw [holds_bind]
    refine holds_activeCall g₁.toMid ?_
    dsimp only
    rw [holds_bind]
    refine holds_pollJob g₁.toMid (fun j a w₂ c₂ hj g₂ hreply => ?_) (fun code w₂ c₂ g₂ => ?_)
      fun w₂ hb => (hb.from g₁.quiet.status).done
    · have hsound₂ := hsound₁.quiet g₂.quiet g₂.fault
      have hs₂ : w₂.st.status = w.st.status := g₂.quiet.status.trans g₁.quiet.status
      dsimp only
      rw [holds_bind]
      refine holds_interruption g₂.toMid (fun w₃ c₃ g₃ hf₃ _ _ _ => ?_) (fun code w₃ c₃ g₃ hf₃ => ?_)
        fun w₃ hb => (hb.from hs₂).done
      · have hsound₃ := hsound₂.quiet g₃.quiet hf₃
        have hs₃ : w₃.st.status = w.st.status := g₃.quiet.status.trans hs₂
        have hsame : SameCall c₁ c₃ := g₂.same.trans g₃.same
        dsimp only
        split
        · exact g₃.toMid.done hs₃ hsound₃ ()
        · -- something came
          refine (holds_finish h₀ ⟨g₃.toMid, fun f _ _ => hsound₃, fun f hf => ?_, fun o ho => ?_⟩).mono
            fun r w' hd => hd.from hs₃
          · rw [failure_route hsame.route]
            exact received_failure hf
          · obtain ⟨e, he, hact, c₀, hactive, hsame₀⟩ := hreply
            refine ⟨e, g₃.quiet.mem he, j, a, c₀, hact, hactive, ?_, ?_, hsame₀.job.trans hj, ?_, rfl, rfl⟩
            · exact hsame₀.request.trans hsame.request.symm
            · exact hsame₀.route.trans hsame.route.symm
            · exact (received_same hsame₀ a).trans ho
      · exact holds_fails h₀ g₃.toMid (g₃.same.route.trans g₂.same.route)
          (g₃.quiet.status.trans hs₂) fun hcode => hsound₂.quiet g₃.quiet (hf₃ hcode)
    · exact holds_fails h₀ g₂.toMid g₂.same.route (g₂.quiet.status.trans g₁.quiet.status)
        fun _ => hsound₁.quiet g₂.quiet g₂.fault
  · dsimp only
    rw [holds_bind]
    refine holds_activeCall g₁.toMid ?_
    exact holds_fails h₀ g₁.toMid rfl g₁.quiet.status fun hcode => hsound.quiet g₁.quiet (hf₁ hcode)

theorem kept_poll (h₀ : Fresh s₀) (hpath : Path codec s₀ w) (hs : Settled w)
    (hlog : ∀ e ∈ w.log, e.frame < w.next) (hin : w.st.client.insideCallback = false) :
    Holds (gatewayContract codec s₀) ctx w.next (body codec .poll) (Ended codec s₀ w) (w.enter .poll) := by
  have henter : Path codec s₀ (w.enter .poll) := hpath.step (.enter w .poll)
  have hsenter : ∀ w' : GWorld digest, (∀ e ∈ w.log, e ∈ w'.log) → w'.st = w.st → Settled w' := by
    intro w' hl hst
    exact hs.later hl (by rw [hst]) (by rw [hst]) (by rw [hst])
  refine holds_bind.2 ?_
  unfold poll
  rw [holds_bind, holds_read]
  dsimp only
  by_cases hbusy : (w.st.client.insideCallback || w.st.client.configuring) = true
  · rw [if_pos (by exact hbusy)]
    have hconf : w.st.client.configuring = true := by
      rw [hin] at hbusy
      simpa using hbusy
    refine ⟨henter.step (.refuse _ w.next (.inr hconf) (polls_enter hlog)), hsenter _ (fun e he => ?_) rfl⟩
    exact List.mem_cons_of_mem _ (List.mem_cons_of_mem _ he)
  · rw [if_neg (by exact hbusy)]
    have hconf : w.st.client.configuring = false := by
      rw [hin] at hbusy
      simpa using hbusy
    -- the terminal, if there is one, is delivered
    have hdeliver : ∀ w' : GWorld digest, Path codec s₀ w' → w'.st.client.insideCallback = false →
        w'.st.client.configuring = false → (w'.st.client.active.isSome → Sound w') →
        Polls w.next w'.log → Ended codec s₀ w (.ok (.terminal w'.st.client.terminal)) (w'.put w'.st.deliver) := by
      intro w' hp hi hc hsnd hpolls
      have hexcl : w'.st.client.terminal.isSome → w'.st.client.active = none := by
        intro ht
        by_contra hact
        have hnone := (hp.lives h₀).life.exclusive (Option.isSome_iff_ne_none.2 hact)
        rw [hnone] at ht
        cases ht
      refine ⟨hp.step (.deliver w' w.next hi hc hexcl hpolls), settled_of_sound fun ha => ?_⟩
      have hclient : w'.st.deliver.client.active = w'.st.client.active ∧
          w'.st.deliver.client.fault = w'.st.client.fault := by
        unfold Sys.deliver
        split <;> exact ⟨rfl, rfl⟩
      rcases hsnd (by rw [← hclient.1]; exact ha) with h | ⟨e, he, hx⟩
      · exact .inl (hclient.2.trans h)
      · exact .inr ⟨e, List.mem_cons_of_mem _ he, hx⟩
    by_cases hactive : w.st.client.active.isSome = true
    · obtain ⟨c, hc⟩ := Option.isSome_iff_exists.1 hactive
      have hsound : Sound (w.enter .poll) := by
        rcases hs.sound hin hactive with h | ⟨e, he, hx⟩
        · exact .inl h
        · exact .inr ⟨e, List.mem_cons_of_mem _ he, hx⟩
      rw [if_pos (by exact hactive), holds_bind]
      have hadv : Holds _ ctx w.next (advanceCall codec) _ _ :=
        Holds.only (holds_advanceCall h₀ ⟨henter, hin, hconf, hc⟩ hsound) (only_enter hlog .poll)
      refine hadv.mono fun r w' hd => ?_
      obtain ⟨hd, honly⟩ := hd
      cases r with
      | error e =>
        exact ended_of_ends hd.path hd.sound honly (fun t ht => by cases ht) hactive
      | ok u =>
        exact hdeliver w' hd.path hd.inside hd.configuring hd.sound fun e he hi m hm =>
          (honly e he hi m hm).1
    · rw [if_neg (by exact hactive)]
      have h := hdeliver (w.enter .poll) henter hin hconf (fun ha => absurd ha hactive) (polls_enter hlog)
      exact h

/-- **`cancel`.** -/
theorem holds_cancel (h₀ : Fresh s₀) (hpath : Path codec s₀ w)
    (hin : w.st.client.insideCallback = false) (hconf : w.st.client.configuring = b) :
    Holds (gatewayContract codec s₀) ctx i (cancel codec) (Done codec s₀ b w) w := by
  unfold cancel
  rw [holds_bind, holds_read]
  dsimp only
  cases hact : w.st.client.active with
  | none =>
    refine ⟨hpath, hin, hconf, rfl, fun ha => ?_, fun e he => by cases he⟩
    rw [hact] at ha
    cases ha
  | some c =>
    have hflag : (w.st.onClient (.flag false true)).client.active =
        some { c with cancelRequested := c.cancelRequested || true } := Client.flag_active hact
    have hmid : Mid codec s₀ b (w.put (w.st.onClient (.flag false true)))
        { c with cancelRequested := c.cancelRequested || true } :=
      ⟨hpath.step (.flag w false true), hin, hconf, hflag⟩
    dsimp only
    rw [holds_bind, holds_write]
    dsimp only
    rw [holds_bind, holds_read]
    dsimp only
    rw [if_neg (by show ¬ w.st.client.insideCallback = true; rw [hin]; simp), holds_bind]
    refine holds_activeCall hmid ?_
    exact holds_fails h₀ hmid rfl rfl fun hcode => by cases hcode

theorem kept_cancel (h₀ : Fresh s₀) (hpath : Path codec s₀ w)
    (hlog : ∀ e ∈ w.log, e.frame < w.next) (hin : w.st.client.insideCallback = false) :
    Holds (gatewayContract codec s₀) ctx w.next (body codec .cancel) (Ended codec s₀ w)
      (w.enter .cancel) := by
  refine holds_bind.2 ?_
  have h : Holds _ ctx w.next (cancel codec) _ _ :=
    Holds.only (holds_cancel h₀ (hpath.step (.enter w .cancel)) hin rfl) (only_enter hlog .cancel)
  refine h.mono fun r w' hd => ?_
  have hend := hd.1.ended (v := fun _ => Return.unit) hd.2 (fun _ _ => rfl) (by simp)
  cases r <;> exact hend

theorem kept_disable (mine : Bool) (h₀ : Fresh s₀) (hpath : Path codec s₀ w) (hs : Settled w)
    (hlog : ∀ e ∈ w.log, e.frame < w.next) (hin : w.st.client.insideCallback = false) :
    Holds (gatewayContract codec s₀) ctx w.next (body codec (.disable mine)) (Ended codec s₀ w)
      (w.enter (.disable mine)) := by
  refine holds_bind.2 ?_
  unfold disable
  rw [holds_bind, holds_requireOwner]
  split
  · dsimp only
    rw [holds_bind, holds_write]
    have hpath' := (hpath.step (.enter w (.disable mine))).step (.flag _ true false)
    have h : Holds _ ctx w.next (cancel codec) _ _ :=
      Holds.only (holds_cancel h₀ hpath' hin rfl) (only_enter hlog (.disable mine))
    refine h.mono fun r w' hd => ?_
    have hend := hd.1.ended (v := fun _ => Return.unit) hd.2 (fun _ _ => rfl) (by simp)
    cases r <;> exact hend
  · exact ended_refused _ hpath hs hlog (by simp)

theorem kept_claimConfiguration (hpath : Path codec s₀ w) (hs : Settled w)
    (hlog : ∀ e ∈ w.log, e.frame < w.next) :
    Holds (gatewayContract codec s₀) ctx w.next (body codec .claimConfiguration) (Ended codec s₀ w)
      (w.enter .claimConfiguration) := by
  have hrefused : ∀ e, Ended codec s₀ w (.error e) (w.enter .claimConfiguration) :=
    fun e => ended_refused e hpath hs hlog (by simp)
  refine holds_bind.2 ?_
  unfold claimConfiguration
  rw [holds_bind, holds_read]
  dsimp only
  split
  · exact hrefused _
  · rename_i hfree
    have hidle : w.st.client.owner = none ∧ w.st.client.active = none ∧ w.st.client.terminal = none := by
      have : (((w.st.client.owner = none ∧ w.st.client.active = none) ∧ w.st.client.terminal = none) ∧
          w.st.client.insideCallback = false) ∧ w.st.client.configuring = false := by simpa using hfree
      exact ⟨this.1.1.1.1, this.1.1.1.2, this.1.1.2⟩
    cases hf : w.st.client.fault with
    | some code =>
      rw [show (w.enter .claimConfiguration).st.client.fault = some code from hf]
      exact hrefused _
    | none =>
      rw [show (w.enter .claimConfiguration).st.client.fault = none from hf]
      have hput := (hpath.step (.enter w .claimConfiguration)).step
        (.claim _ ⟨hidle.2.1, hidle.2.2, hf⟩ hidle.1)
      refine ended_of_ends hput (fun ha => ?_) (only_enter hlog _) (fun t ht => by cases ht) rfl
      have hnone : w.st.client.active.isSome := ha
      rw [hidle.2.1] at hnone
      cases hnone

theorem kept_reconfigure (host : Option Host) (localRoute : Option Local)
    (permit : Option (Option ℕ)) (mine : Bool) (hpath : Path codec s₀ w) (hs : Settled w)
    (hlog : ∀ e ∈ w.log, e.frame < w.next) :
    Holds (gatewayContract codec s₀) ctx w.next (body codec (.reconfigure host localRoute permit mine))
      (Ended codec s₀ w) (w.enter (.reconfigure host localRoute permit mine)) := by
  refine holds_bind.2 ?_
  refine holds_reconfigure (fun e => ended_refused e hpath hs hlog (by simp)) fun h p _ hp hidle howner => ?_
  obtain ⟨f, -, hf⟩ := Option.map_eq_some_iff.1 hp
  subst hf
  have hne : w.st.client.owner ≠ some .configuration := by
    intro hcontra
    have howner' : ownerOf mine = w.st.client.owner := howner
    rw [hcontra] at howner'
    cases mine <;> cases howner'
  have hput := (hpath.step (.enter w (.reconfigure host localRoute permit mine))).step
    (.rebind _ h localRoute f hidle hne)
  refine ended_of_ends hput (fun ha => ?_) (only_enter hlog _) (fun t ht => by cases ht) rfl
  have hnone : w.st.client.active.isSome := ha
  have hidle' : w.st.client.active = none := hidle.active
  rw [hidle'] at hnone
  cases hnone

theorem kept_configuration (mine : Bool) (hpath : Path codec s₀ w) (hs : Settled w)
    (hlog : ∀ e ∈ w.log, e.frame < w.next) :
    Holds (gatewayContract codec s₀) ctx w.next (body codec (.configuration mine)) (Ended codec s₀ w)
      (w.enter (.configuration mine)) := by
  have hrefused : ∀ e, Ended codec s₀ w (.error e) (w.enter (.configuration mine)) :=
    fun e => ended_refused e hpath hs hlog (by simp)
  show Holds _ ctx w.next (configuration (ownerOf mine) _) _ _
  unfold configuration
  rw [holds_bind, holds_requireOwner]
  split
  · dsimp only
    rw [holds_bind, holds_read]
    dsimp only
    split
    · exact hrefused _
    · rw [holds_bind, holds_write]
      dsimp only
      rw [holds_lastly, holds_bind]
      have hput : Path codec s₀ ((w.enter (.configuration mine)).put (w.st.onClient (.configure true))) :=
        (hpath.step (.enter w _)).step (.configuring _ true)
      have hask : Holds (gatewayContract codec s₀) ctx w.next (Prog.ask .transaction)
          (fun _ w' => Path codec s₀ w' ∧ Settled w')
          ((w.enter (.configuration mine)).put (w.st.onClient (.configure true))) := by
        rw [holds_ask]
        have hlater : Settled (((w.enter (.configuration mine)).put
            (w.st.onClient (.configure true))).push w.next (.call .transaction)) :=
          hs.later (fun e he => List.mem_cons_of_mem _ (List.mem_cons_of_mem _ he)) rfl rfl rfl
        refine ⟨⟨hput.step (.ask _ w.next .transaction rfl), hlater⟩, fun w' hinv _ _ a _ => ?_⟩
        exact ⟨hinv.1.step (.answer w' w.next .transaction a rfl),
          hinv.2.later (fun e he => List.mem_cons_of_mem _ he) rfl rfl rfl⟩
      refine (Holds.only hask (only_enter hlog (.configuration mine))).mono fun r w' hd => ?_
      obtain ⟨⟨hp, hst⟩, honly⟩ := hd
      -- whatever the transaction did, the flag is cleared
      have hend : ∀ r : Except Exc Return, (∀ t, r ≠ .ok (.terminal t)) →
          Ended codec s₀ w r (w'.put (w'.st.onClient (.configure false))) := by
        intro r hr
        have hp' : Path codec s₀ (w'.put (w'.st.onClient (.configure false))) :=
          hp.step (.configuring w' false)
        refine ⟨hp'.step (.ret _ w.next r hr fun e he hf m hact => ?_), ?_⟩
        · obtain ⟨rfl, -⟩ := honly e he hf m hact
          rfl
        · exact hst.later (fun e he => List.mem_cons_of_mem _ he) rfl rfl rfl
      cases r with
      | error e => exact hend _ fun t ht => by cases ht
      | ok a => cases a <;> exact hend _ fun t ht => by cases ht
  · exact hrefused _

theorem kept_disableConfiguration (h₀ : Fresh s₀) (hpath : Path codec s₀ w) (hs : Settled w)
    (hlog : ∀ e ∈ w.log, e.frame < w.next) (hin : w.st.client.insideCallback = false) :
    Holds (gatewayContract codec s₀) ctx w.next (body codec .disableConfiguration) (Ended codec s₀ w)
      (w.enter .disableConfiguration) := by
  have hrefused : ∀ e, Ended codec s₀ w (.error e) (w.enter .disableConfiguration) :=
    fun e => ended_refused e hpath hs hlog (by simp)
  refine holds_bind.2 ?_
  unfold disableConfiguration
  refine holds_transact hin hrefused fun c hc howner hconf => ?_
  replace howner : w.st.client.owner = some .configuration := howner
  replace hc : w.st.config = some c := hc
  show Holds _ ctx w.next (Prog.write _ >>= _) _ _
  rw [holds_bind, holds_write]
  dsimp only
  rw [holds_bind]
  unfold disable
  rw [holds_bind, holds_requireOwner, if_pos (by exact howner.symm)]
  dsimp only
  rw [holds_bind, holds_write]
  dsimp only
  -- the configuration is disabled, and with it the client
  obtain ⟨w₁, hw₁⟩ : ∃ w₁, w₁ = (w.enter .disableConfiguration).put (w.st.onClient (.configure true)) :=
    ⟨_, rfl⟩
  have hpath₁ : Path codec s₀ w₁ := by
    rw [hw₁]
    exact (hpath.step (.enter w _)).step (.configuring _ true)
  have hin₁ : w₁.st.client.insideCallback = false := by rw [hw₁]; exact hin
  have hpath₂ : Path codec s₀ (w₁.put { w₁.st.onClient (.flag true false) with config := some c.disable }) := by
    rw [hw₁] at hpath₁ ⊢
    exact hpath₁.step (.disable _ w.next c w.st w.log hin howner hc rfl hc)
  have hstatus₂ : (w₁.put { w₁.st.onClient (.flag true false) with config := some c.disable }).st.status =
      some (shut c.state) := rfl
  have honly₂ : Only w.next .disableConfiguration w.st
      (w₁.put { w₁.st.onClient (.flag true false) with config := some c.disable }).log := by
    rw [hw₁]
    exact only_enter hlog .disableConfiguration
  have hstatus : w.st.status = some c.state := by
    unfold Sys.status
    rw [hc]
    rfl
  have hcancel : Holds _ ctx w.next (cancel codec) _ _ := Holds.only (holds_cancel h₀ hpath₂ hin₁ rfl) honly₂
  have hend : ∀ (r : Except Exc Return) (w' : GWorld digest), Only w.next .disableConfiguration w.st w'.log →
      Done codec s₀ (w₁.put { w₁.st.onClient (.flag true false) with config := some c.disable }).st.client.configuring
        (w₁.put { w₁.st.onClient (.flag true false) with config := some c.disable }) r w' →
      (r = .ok (.revision (c.state.revision + 1)) ∨ r = .error .interrupt) →
      Ended codec s₀ w r (w'.put (w'.st.onClient (.configure false))) := by
    intro r w' ho hd hr
    have hp : Path codec s₀ (w'.put (w'.st.onClient (.configure false))) := hd.path.step (.configuring w' false)
    refine ended_of_ends hp hd.sound ho (fun t ht => ?_) (.inl ⟨c.state, hstatus, ?_, hr⟩)
    · rcases hr with rfl | rfl <;> cases ht
    · exact hd.status.trans hstatus₂
  rw [hw₁] at hcancel hend
  refine hcancel.mono fun r w' hd => ?_
  obtain ⟨hd, ho⟩ := hd
  cases r with
  | error e =>
    cases hd.raises e rfl
    exact hend _ w' ho ⟨hd.path, hd.inside, hd.configuring, hd.status, hd.sound, fun e he => by cases he; rfl⟩
      (.inr rfl)
  | ok u =>
    exact hend _ w' ho ⟨hd.path, hd.inside, hd.configuring, hd.status, hd.sound, fun e he => by cases he⟩
      (.inl rfl)

/-! ## All methods -/

/-- **Every method keeps the contract of the gateway.** -/
theorem gateway_kept (h₀ : Fresh s₀) : (gatewayContract codec s₀).Kept where
  crash w s _ h := by cases h
  method ctx m w _ hlog _ hinv := by
    obtain ⟨hpath, hs⟩ := hinv
    by_cases hin : w.st.client.insideCallback = true
    · exact nested_kept m hpath hin hlog
    · rw [Bool.not_eq_true] at hin
      refine kept_of_ended hin ?_
      by_cases hm : m.operates = true
      · exact kept_operations hpath hs hin hm
      · cases m with
        | start request => exact kept_start request h₀ hpath hs hlog hin
        | poll => exact kept_poll h₀ hpath hs hlog hin
        | cancel => exact kept_cancel h₀ hpath hlog hin
        | disable mine => exact kept_disable mine h₀ hpath hs hlog hin
        | claimConfiguration => exact kept_claimConfiguration hpath hs hlog
        | configuration mine => exact kept_configuration mine hpath hs hlog
        | reconfigure host localRoute permit mine =>
          exact kept_reconfigure host localRoute permit mine hpath hs hlog
        | disableConfiguration => exact kept_disableConfiguration h₀ hpath hs hlog hin
        | _ => exact absurd rfl hm

/-- **Every reachable world is on a path of steps.** -/
theorem reachable_path (h₀ : Fresh s₀) {cfg : Config (Sys digest) Op Answer Exc Method Return}
    (h : (gateway codec digest).Reachable s₀ cfg) : Path codec s₀ cfg.w :=
  (Contract.sound (gateway_kept h₀) ⟨.start, fun _ _ ha => by
    obtain ⟨host, localRoute, version, rfl⟩ := h₀
    cases ha⟩ h).1

end Gateway

end Arhugula
