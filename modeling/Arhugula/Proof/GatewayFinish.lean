import Arhugula.Proof.GatewayAttempt

/-!
# The end of an attempt of the gateway

The specification of `_finish`, and with it those of `_begin` on either route: a call that is
not cleaned up ends with a fault; a call that is falls back, or ends with its value.
-/

namespace Arhugula

namespace Gateway

open Reentrant Providers

variable {digest : Manifest → String} {codec : Codec} {s₀ : Sys digest} {ctx : List (ℕ × Op)}
  {i : ℕ} {b : Bool} {w w' : GWorld digest} {c c' : Call}

/-! ## Cleanup -/

/-- The job is retired, with value `v`; the call was cleaned up if `clean`. -/
structure Retired (codec : Codec) (s₀ : Sys digest) (b : Bool) (w : GWorld digest) (c : Call)
    (v : Value) (clean : Bool) (w' : GWorld digest) (c' : Call) : Prop extends Mid codec s₀ b w' c' where
  request : c'.request = c.request
  route : c'.route = c.route
  primary : c'.primary = c.primary
  job : c'.job = none
  fault : w'.st.client.fault = w.st.client.fault
  log : ∀ e ∈ w.log, e ∈ w'.log
  status : w'.st.status = w.st.status
  unclean : w'.st.client.unclean = !clean
  marked : .finishing c.request.requestId v ∈ w'.st.trail

/-- The state after the job was taken from the call. -/
def finishing (c : Call) (v : Value) (s : Sys digest) : Sys digest :=
  (s.onClient fun k => { k with
    active := k.active.map fun call => { call with job := none }
    unclean := k.unclean || v.isCleanup }).mark (.finishing c.request.requestId v)

theorem finishing_idle (c : Call) (v : Value) (s : Sys digest) :
    ((s.mark (.finishing c.request.requestId v)).onClient
      (.change fun c => { c with job := none })).onClient
        (.soil (!(!s.client.unclean && !v.isCleanup))) = finishing c v s := by
  have hor : (!(!s.client.unclean && !v.isCleanup)) = (s.client.unclean || v.isCleanup) := by
    rw [Bool.not_and, Bool.not_not, Bool.not_not]
  rw [hor]
  rfl

theorem finishing_owned {s : Sys digest} (h : s.client.unclean = true) (c : Call) (v : Value) :
    (s.mark (.finishing c.request.requestId v)).onClient (.change fun c => { c with job := none }) =
      finishing c v s := by
  obtain ⟨⟨_, _, _, _, _, _, _, _, unclean, _, _, _, _⟩, _, _⟩ := s
  cases h
  rfl

/-- The call, its job taken from it. -/
theorem Mid.finishing (h : Mid codec s₀ b w c) (v : Value) :
    Mid codec s₀ b (w.put (finishing c v w.st)) { c with job := none } :=
  ⟨h.path.step (.finishing w c v h.active), h.inside, h.configuring, by
    show w.st.client.active.map _ = _
    rw [h.active]
    rfl⟩

/-- The job is canceled. -/
theorem holds_proven {j : ℕ} {Q : Except Exc Bool → GWorld digest → Prop} (h : Mid codec s₀ b w c)
    (hj : c.job = none) (hu : w.st.client.unclean = true)
    (hok : ∀ a w', Invoked codec s₀ i (.cancel j) a w w' → Q (.ok (a = .truth true)) w')
    (herr : ∀ w', Broken codec s₀ b w w' → Q (.error .interrupt) w') :
    Holds (gatewayContract codec s₀) ctx i
      (onException
        (do match ← invoke (.cancel j) with
            | .truth b => pure b
            | _ => pure false)
        (pure false)) Q w := by
  unfold onException
  rw [holds_catching, holds_bind]
  have hcall : Path codec s₀ ((w.put (w.st.onClient (.inside true))).push i (.call (.cancel j))) :=
    (h.path.step (.inside w true)).step (.cancel _ i c j h.active hj hu)
  refine holds_invoke h.inside hcall (fun w₁ a _ hp hpass => ?_) fun a w' _ hi => ?_
  · obtain ⟨⟨d, x, hst⟩, -⟩ := hpass
    refine hp.step (.canceled w₁ i { c with cancelRequested := c.cancelRequested || x } j a ?_ hj ?_)
    · rw [hst]
      exact Client.flag_active h.active
    · rw [hst]
      exact hu
  · have hdone := hok a w' hi
    cases a with
    | raised e =>
      show Holds _ ctx i (if e = .interrupt then .fail e else pure false) Q w'
      by_cases he : e = .interrupt
      · subst he
        rw [if_pos rfl]
        exact herr w' (h.broken hi)
      · rw [if_neg he]
        exact hdone
    | truth t => cases t <;> exact hdone
    | _ => exact hdone

/-- `_retire`, and the decision whether the call was cleaned up. -/
theorem holds_retired {k : Bool → GM digest Unit} {Q : Except Exc Unit → GWorld digest → Prop}
    (h₀ : Fresh s₀) (h : Mid codec s₀ b w c) (v : Value)
    (hrest : ∀ clean w' c', Retired codec s₀ b w c v clean w' c' →
      Holds (gatewayContract codec s₀) ctx i (k clean) Q w')
    (herr : ∀ w', Broken codec s₀ b w w' → Q (.error .interrupt) w') :
    Holds (gatewayContract codec s₀) ctx i (do
      Prog.write (Sys.mark (.finishing c.request.requestId v))
      let proven ← retire
      Prog.write (Sys.onClient (Client.soil (!(proven && !v.isCleanup))))
      k (proven && !v.isCleanup)) Q w := by
  have hmid₁ := h.finishing v
  have hmark₁ : .finishing c.request.requestId v ∈ (finishing c v w.st).trail := List.mem_cons_self
  have hactive : Holds (gatewayContract codec s₀) ctx i activeCall (fun r w' => r = .ok c ∧
      w' = w.put (w.st.mark (.finishing c.request.requestId v)))
      (w.put (w.st.mark (.finishing c.request.requestId v))) := by
    unfold activeCall
    rw [holds_bind, holds_read]
    have hact : (w.put (w.st.mark (.finishing c.request.requestId v))).st.client.active = some c := h.active
    dsimp only
    rw [hact]
    exact ⟨rfl, rfl⟩
  rw [holds_bind, holds_write]
  dsimp only
  rw [holds_bind]
  unfold retire
  rw [holds_bind]
  refine hactive.mono fun r w' hr => ?_
  obtain ⟨rfl, rfl⟩ := hr
  dsimp only
  show Holds _ ctx i (Prog.write _ >>= _) _ _
  rw [holds_bind, holds_write]
  dsimp only
  cases hjob : c.job with
  | none =>
    -- no job: clean unless something was begun and not cleaned up
    dsimp only
    rw [holds_read]
    dsimp only
    rw [holds_bind, holds_write]
    have hst := finishing_idle c v w.st
    have hret : Retired codec s₀ b w c v (!w.st.client.unclean && !v.isCleanup)
        (w.put (finishing c v w.st)) { c with job := none } := by
      refine ⟨hmid₁, rfl, rfl, rfl, rfl, rfl, fun e he => he, rfl, ?_, hmark₁⟩
      show (w.st.client.unclean || v.isCleanup) = _
      rw [Bool.not_and, Bool.not_not, Bool.not_not]
    have hgo := hrest _ _ _ hret
    rw [← hst] at hgo
    exact hgo
  | some j =>
    have hbooks := (h.path.books h₀).owned c h.active j hjob
    obtain ⟨hdebts, hunclean, hdirty⟩ := hbooks
    have hst := finishing_owned hunclean c v
    dsimp only
    rw [holds_bind]
    have hu₁ : (finishing c v w.st).client.unclean = true := by
      show (w.st.client.unclean || v.isCleanup) = true
      rw [hunclean]
      rfl
    have hworld : (w.put (w.st.mark (.finishing c.request.requestId v))).put
        ((w.put (w.st.mark (.finishing c.request.requestId v))).st.onClient
          (.change fun c => { c with job := none })) = w.put (finishing c v w.st) :=
      congrArg w.put hst
    rw [hworld]
    refine holds_proven hmid₁ rfl hu₁ (fun a w₂ hi => ?_) fun w₂ hb => herr w₂ (hb.from rfl)
    obtain ⟨x, hmid₂, hf₂⟩ := hmid₁.invoked hi
    obtain ⟨d, y, hst₂⟩ := hi.flags
    obtain ⟨s, s', new, hlog, -, -, hnew, -⟩ := hi.log
    have hmark₂ : .finishing c.request.requestId v ∈ w₂.st.trail := by rw [hst₂]; exact hmark₁
    have hmem : ∀ e ∈ w.log, e ∈ w₂.log := fun e he => by rw [hlog]; simp [he]
    have hs₂ : w₂.st.status = w.st.status := by rw [hst₂]; rfl
    obtain ⟨clean, hclean⟩ : ∃ clean, clean = (decide (a = .truth true) && !v.isCleanup) := ⟨_, rfl⟩
    have hpath₃ : Path codec s₀ (w₂.put (w₂.st.onClient (.soil (!clean)))) := by
      cases hc : clean with
      | false => exact hi.path.step (.soil w₂ _ hmid₂.active)
      | true =>
        rw [hc] at hclean
        obtain ⟨ha, hv⟩ := Bool.and_eq_true_iff.1 hclean.symm
        have ha' : a = .truth true := of_decide_eq_true ha
        refine hi.path.step (.absolve w₂ _ hmid₂.active rfl ?_ fun id f hm hcode => ?_)
        · rw [hlog, debts_cancel, if_pos ha', debts_still fun e he => still_of_passive (hnew e he).1,
            debts_other _ i s' fun op' a' h => by cases h]
          show (debts w.log).filter _ = []
          rw [hdebts]
          simp
        · rw [hst₂] at hm
          rcases List.mem_cons.1 hm with heq | hm
          · cases heq
            simp [Value.isCleanup, hcode] at hv
          · exact hdirty ⟨id, f, hm, hcode⟩
    have hret : Retired codec s₀ b w c v clean (w₂.put (w₂.st.onClient (.soil (!clean))))
        { c with job := none, cancelRequested := c.cancelRequested || x } :=
      ⟨⟨hpath₃, hmid₂.inside, hmid₂.configuring, hmid₂.active⟩, rfl, rfl, rfl, rfl, hf₂, hmem, hs₂, rfl,
        hmark₂⟩
    have hgo := hrest _ _ _ hret
    rw [hclean] at hgo
    show Holds _ ctx i (Prog.write _ >>= _) _ w₂
    rw [holds_bind, holds_write]
    show Holds _ ctx i (Prog.write _ >>= _) _ _
    rw [holds_bind, holds_write]
    exact hgo

/-! ## `_finish` -/

/-- A terminal is stored. -/
theorem holds_store {w₀ : GWorld digest} {t : Terminal} (h : Mid codec s₀ b w c)
    (hs : w.st.status = w₀.st.status) (hst : Stored codec c w.st w.log t) :
    Holds (gatewayContract codec s₀) ctx i (Prog.write (Sys.store c.request.requestId t))
      (Done codec s₀ b w₀) w := by
  rw [holds_write]
  refine ⟨h.path.step (.store w c t hst), h.inside, h.configuring, hs, fun ha => ?_, fun e he => ?_⟩
  · cases ha
  · cases he

theorem Parsed.mono {log log' : List (GEntry digest)} {v : Success} (h : Parsed codec c log v)
    (hl : ∀ e ∈ log, e ∈ log') (hreq : c'.request = c.request) (hroute : c'.route = c.route) :
    Parsed codec c' log' v := by
  obtain ⟨e, he, j, incoming, c₀, hact, hactive, hr, hro, hj, hrec, hp, hm⟩ := h
  refine ⟨e, hl e he, j, incoming, c₀, hact, hactive, hr.trans hreq.symm, hro.trans hroute.symm, hj, hrec, ?_, ?_⟩
  · rw [hroute]
    exact hp
  · rw [hroute]
    exact hm

/-- The call ends with the failures so far and `f`. -/
theorem stored_failed {fs : List Failure} (h : Mid codec s₀ b w c)
    (hu : w.st.client.fault = none → w.st.client.unclean = false) :
    Stored codec c w.st w.log (.failed fs) :=
  ⟨h.active, hu, fun v hv => by cases hv⟩

/-- **Where `_finish` concludes**: the call is cleaned up. -/
structure Clean (codec : Codec) (s₀ : Sys digest) (b : Bool) (w : GWorld digest) (c : Call) (v : Value)
    (interrupted : Option Code) : Prop extends Mid codec s₀ b w c where
  job : c.job = none
  clean : w.st.client.unclean = false
  falls : ∀ f, v = .failure f → interrupted = none → fallsBack f.code = true →
    Sound w ∧ f = c.failure f.code ∧ .finishing c.request.requestId (.failure f) ∈ w.st.trail
  parsed : ∀ o, v = .output o →
    Parsed codec c w.log ⟨o, c.route.provider.providerId, c.route.provider.modelVersion⟩

/-- The local route is begun by `again`. -/
def Begins (codec : Codec) (s₀ : Sys digest) (ctx : List (ℕ × Op)) (i : ℕ) (b : Bool)
    (again : GM digest Unit) : Prop :=
  ∀ w c l, c.route = .vm l → Ready codec s₀ i b w c →
    Holds (gatewayContract codec s₀) ctx i again (Done codec s₀ b w) w

theorem holds_conclude {again : GM digest Unit} {v : Value} {interrupted : Option Code}
    {w₀ : GWorld digest} (h₀ : Fresh s₀)
    (hagain : ∀ k, c.route = .host k → Begins codec s₀ ctx i b again)
    (h : Clean codec s₀ b w c v interrupted) (hs : w.st.status = w₀.st.status) :
    Holds (gatewayContract codec s₀) ctx i (conclude again v interrupted) (Done codec s₀ b w₀) w := by
  unfold conclude
  rw [holds_bind]
  refine holds_activeCall h.toMid ?_
  dsimp only
  have hfail : ∀ fs, Holds (gatewayContract codec s₀) ctx i
      (Prog.write (Sys.store c.request.requestId (.failed fs))) (Done codec s₀ b w₀) w :=
    fun fs => holds_store h.toMid hs (stored_failed h.toMid fun _ => h.clean)
  cases v with
  | output o =>
    refine holds_store h.toMid hs ⟨h.active, fun _ => h.clean, fun v hv => ?_⟩
    have hp := h.parsed o rfl
    cases hprim : c.primary with
    | none =>
      rw [hprim] at hv
      cases hv
      exact hp
    | some f =>
      rw [hprim] at hv
      cases hv
      exact hp
  | failure f =>
    dsimp only
    rw [holds_bind, holds_read]
    dsimp only
    cases hroute : c.route with
    | vm l => exact hfail _
    | host k =>
      cases hlocal : w.st.client.localRoute with
      | none => exact hfail _
      | some l =>
        dsimp only
        by_cases hcond : (interrupted.isNone && fallsBack f.code) = true
        · -- the call falls back
          rw [if_pos hcond]
          obtain ⟨hnone, hcode⟩ := Bool.and_eq_true_iff.1 hcond
          obtain ⟨hsound, hmade, hmark⟩ := h.falls f rfl (Option.isNone_iff_eq_none.1 hnone) hcode
          have hfalling : Falling c w.st k l f :=
            ⟨h.active, hroute, hlocal, hcode, hmade, h.clean, h.job, hmark⟩
          have hmid : Mid codec s₀ b (w.put (w.st.onClient (.change fun call =>
              { call with primary := some f, route := .vm l }))) { c with primary := some f, route := .vm l } :=
            h.toMid.change (h.path.step (.fallBack w c k l f hfalling))
          have hready : Ready codec s₀ i b (w.put (w.st.onClient (.change fun call =>
              { call with primary := some f, route := .vm l }))) { c with primary := some f, route := .vm l } := by
            refine ⟨hmid, h.job, h.clean, hsound, fun k' hk' => ?_, fun l' _ => ?_⟩
            · cases hk'
            · exact (h.path.tries h₀).host c k h.active hroute
          show Holds _ ctx i (Prog.write _ >>= _) _ w
          rw [holds_bind, holds_write]
          exact (hagain k hroute _ _ l rfl hready).mono fun r w' hd => hd.from hs
        · rw [if_neg hcond]
          exact hfail _

theorem holds_abandon {v : Value} {w₀ : GWorld digest} (h : Mid codec s₀ b w c)
    (hs : w.st.status = w₀.st.status) :
    Holds (gatewayContract codec s₀) ctx i (abandon v) (Done codec s₀ b w₀) w := by
  unfold abandon
  rw [holds_bind]
  refine holds_activeCall h ?_
  show Holds _ ctx i (Prog.write _ >>= _) _ w
  rw [holds_bind, holds_write]
  have hmid : Mid codec s₀ b (w.put (w.st.onClient (.latch .cleanup))) c :=
    ⟨h.path.step (.latch w .cleanup), h.inside, h.configuring, h.active⟩
  exact holds_store hmid hs (stored_failed hmid fun hf => by cases hf)

/-- `_finish`, from its look at the clock on. -/
def resolve (again : GM digest Unit) (v : Value) (clean : Bool) : GM digest Unit := do
  let interrupted ← interruption
  let call ← activeCall
  let value := match interrupted with
    | some code => .failure (call.failure code)
    | none => v
  if clean then conclude again value interrupted else abandon value

theorem settle_eq (again : GM digest Unit) (v : Value) : settle again v = (do
    let call ← activeCall
    Prog.write (Sys.mark (.finishing call.request.requestId v))
    let proven ← retire
    Prog.write (Sys.onClient (Client.soil (!(proven && !v.isCleanup))))
    resolve again v (proven && !v.isCleanup)) := rfl

theorem holds_resolve {again : GM digest Unit} {v : Value} {clean : Bool} (h₀ : Fresh s₀)
    (hagain : ∀ k, c.route = .host k → Begins codec s₀ ctx i b again)
    (h : Finishing codec s₀ b w c v) (hret : Retired codec s₀ b w c v clean w' c') :
    Holds (gatewayContract codec s₀) ctx i (resolve again v clean) (Done codec s₀ b w) w' := by
  have hsound : ∀ f, v = .failure f → fallsBack f.code = true → Sound w' := by
    intro f hv hcode
    rcases h.sound f hv hcode with hs | ⟨e, he, hx⟩
    · exact .inl (hret.fault.trans hs)
    · exact .inr ⟨e, hret.log e he, hx⟩
  unfold resolve
  rw [holds_bind]
  refine holds_interruption hret.toMid (fun w₂ c₂ g hf _ _ _ => ?_) (fun code w₂ c₂ g hf => ?_)
    fun w₂ hb => (hb.from hret.status).done
  all_goals
    have hs₂ : w₂.st.status = w.st.status := g.quiet.status.trans hret.status
    have hroute₂ : c₂.route = c.route := g.same.route.trans hret.route
    have hu : clean = true → w₂.st.client.unclean = false := by
      intro hclean
      rw [g.quiet.client]
      show w'.st.client.unclean = false
      rw [hret.unclean, hclean]
      rfl
    dsimp only
    rw [holds_bind]
    refine holds_activeCall g.toMid ?_
    dsimp only
  · -- the clock lets the value stand
    have hreq₂ : c₂.request = c.request := g.same.request.trans hret.request
    by_cases hclean : clean = true
    · rw [if_pos hclean]
      refine holds_conclude h₀ (fun k hk => hagain k (hroute₂ ▸ hk))
        ⟨g.toMid, g.same.job.trans hret.job, hu hclean, fun f hv _ hcode => ⟨?_, ?_, ?_⟩, fun o hv => ?_⟩ hs₂
      · exact (hsound f hv hcode).quiet g.quiet hf
      · rw [failure_route hroute₂]
        exact h.made f hv
      · rw [g.quiet.trail, hreq₂, ← hv]
        exact hret.marked
      · rw [hroute₂]
        exact (h.parsed o hv).mono (fun e he => g.quiet.mem (hret.log e he)) hreq₂ hroute₂
    · rw [if_neg hclean]
      exact holds_abandon g.toMid hs₂
  · -- interrupted: the call ends
    by_cases hclean : clean = true
    · rw [if_pos hclean]
      refine holds_conclude h₀ (fun k hk => hagain k (hroute₂ ▸ hk))
        ⟨g.toMid, g.same.job.trans hret.job, hu hclean, fun f _ hnone => ?_, fun o ho => ?_⟩ hs₂
      · cases hnone
      · cases ho
    · rw [if_neg hclean]
      exact holds_abandon g.toMid hs₂

/-- **`_finish`.** -/
theorem holds_settle {again : GM digest Unit} {v : Value} (h₀ : Fresh s₀)
    (hagain : ∀ k, c.route = .host k → Begins codec s₀ ctx i b again)
    (h : Finishing codec s₀ b w c v) :
    Holds (gatewayContract codec s₀) ctx i (settle again v) (Done codec s₀ b w) w := by
  rw [settle_eq, holds_bind]
  refine holds_activeCall h.toMid ?_
  exact holds_retired h₀ h.toMid v (fun clean w₁ c₁ hret => holds_resolve h₀ hagain h hret)
    fun w₁ hb => hb.done

/-! ## Both routes -/

/-- `_begin` on the local route. -/
theorem begins_local (h₀ : Fresh s₀) : Begins codec s₀ ctx i b (beginLocal codec) := by
  intro w c l hl h
  refine holds_attempting h₀ (fun w' c' v hroute hfin => ?_) h rfl
  refine holds_settle h₀ (fun k hk => ?_) hfin
  rw [hroute, hl] at hk
  cases hk

/-- **`_finish`**, on either route. -/
theorem holds_finish {v : Value} (h₀ : Fresh s₀) (h : Finishing codec s₀ b w c v) :
    Holds (gatewayContract codec s₀) ctx i (finish codec v) (Done codec s₀ b w) w :=
  holds_settle h₀ (fun _ _ => begins_local h₀) h

/-- **`_begin`**, on either route. -/
theorem holds_beginCall (h₀ : Fresh s₀) (h : Ready codec s₀ i b w c) :
    Holds (gatewayContract codec s₀) ctx i (beginCall codec) (Done codec s₀ b w) w :=
  holds_attempting h₀ (fun _ _ _ _ hfin => holds_finish h₀ hfin) h rfl

/-- An active call ends with a failure. -/
theorem holds_fails {w₀ : GWorld digest} {code : Code} (h₀ : Fresh s₀) (h : Mid codec s₀ b w c)
    (hroute : c.route = c'.route) (hs : w.st.status = w₀.st.status)
    (hsound : fallsBack code = true → Sound w) :
    Holds (gatewayContract codec s₀) ctx i (finish codec (.failure (c'.failure code)))
      (Done codec s₀ b w₀) w := by
  have hfin : Finishes codec s₀ ctx i b c'.route (finish codec) :=
    fun _ _ _ _ hfin => holds_finish h₀ hfin
  exact hfin.fail h hroute hs rfl hsound

end Gateway

end Arhugula
