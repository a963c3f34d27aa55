import Arhugula.Proof.PlaneOnce
import Arhugula.Proof.RouterPreview

/-!
# What a voice command may execute

The methods of a router keep the contract of previews: every candidate is one of the
router's actions, and after the assessment either the command is previewed, or it is
the exact one, or the plane denies it and goes on denying it.
-/

namespace Arhugula

namespace Voice

open Reentrant Vm Plane

variable {t : Text} {ctx : List (ℕ × Op)} {i p r : ℕ} {w w₀ : VWorld} {m : Call}
  {command : Command}

/-! ## The parts of a router -/

theorem own_steady (q : ℕ) : Steady (voiceContract t) ctx i q (Own t ctx w₀ i m) :=
  voiceContract_calm.steady only_stable

/-- A router's changes to itself. -/
theorem keeps_router (f : Router → Router) (hf : ∀ r, (f r).plane = r.plane ∧ (f r).actions = r.actions) :
    Keeps (voiceContract t) ctx i (Own t ctx w₀ i m) (Prog.write fun s => s.modifyRouter r f)
      (fun _ => True) :=
  keeps_write fun w hw => own_put hw (kept_router w.st r hf)

/-- A router reads its plane and its actions as they were at the call. -/
theorem keeps_readRouter :
    Keeps (voiceContract t) ctx i (Own t ctx w₀ i m) (Prog.read fun s => s.routers r)
      (fun router => router.plane = (w₀.st.routers r).plane ∧
        router.actions = (w₀.st.routers r).actions) :=
  keeps_read fun _ hw => VoiceRel.routers hw.rel r

theorem attends_voice : Attends (voiceContract t) ctx i r (Own t ctx w₀ i m) where
  steady := own_steady
  activated w _ hw := own_put hw (kept_router w.st r fun _ => ⟨rfl, rfl⟩)

/-- A preview executes nothing. -/
theorem preview_voice (action : Action) (state : VoiceState) (corrected inferred : Bool) :
    Keeps (voiceContract t) ctx i (Own t ctx w₀ i m)
      (preview t r p action command state corrected inferred) (fun _ => True) := by
  refine (keeps_read (P := fun _ => True) fun _ _ => trivial).bind fun n _ =>
    .ite (fun _ => keeps_pure trivial) fun _ => (Attends.binding state).bind fun bound _ => ?_
  refine Keeps.bind (P := fun _ => True) (Keeps.catching
    (requestConfirmation_voice.map fun _ _ => trivial) fun e => ?_) fun issued _ => ?_
  · cases e with
    | confirmation _ => exact keeps_pure trivial
    | _ => exact keeps_fail
  · cases issued with
    | none => exact keeps_pure trivial
    | some confirmation =>
      refine (attends_voice.speak _ state).bind fun failure _ => ?_
      cases failure with
      | some failure =>
        exact (Attends.binding state).bind fun bound _ => (confirm_voice (.inl rfl)).bind fun _ _ =>
          keeps_pure trivial
      | none =>
        exact (Attends.binding state).bind fun bound _ =>
          (keeps_router (.keep _ _) fun _ => ⟨rfl, rfl⟩).bind fun _ _ => keeps_pure trivial

/-! ## `handle` -/

/-- **The decision.** What is dispatched at once was said exactly, or is denied. -/
theorem decide_voice {text : String} {corrected : Bool} {action : Action} {state : VoiceState}
    (hm : m = .handle r (some text) (some corrected))
    (haction : action ∈ (w₀.st.routers r).actions)
    (hcommand : action.capabilityId = command.capabilityId ∧ action.arguments = command.arguments) :
    Keeps (voiceContract t) ctx i (Own t ctx w₀ i m)
      (decide t r (w₀.st.routers r).plane text action command state corrected) (fun _ => True) := by
  suffices h : ∀ w, Own t ctx w₀ i m w → Holds (voiceContract t) ctx i
      (decide t r (w₀.st.routers r).plane text action command state corrected)
      (fun _ w' => Own t ctx w₀ i m w') w from
    fun w hw => (h w hw).mono fun _ _ h' => ⟨h', fun _ _ => trivial⟩
  intro w hw
  unfold decide assess snapshotCommand
  rw [holds_bind, holds_bind]
  split
  swap
  · exact hw
  rw [holds_pure]
  show Holds _ _ _ (Prog.read _) _ _
  rw [holds_read]
  dsimp only
  generalize hden : denial (w.st.planes (w₀.st.routers r).plane) command false = verdict
  generalize hprev : (verdict = some .confirmationRequired ||
    ((corrected || !matchesAlias t text action) && verdict.isNone) : Bool) = previewed
  rw [holds_bind]
  -- the moment without the lock
  have hask : Survives (voiceContract t) ctx i (Own t ctx w₀ i m)
      (.voice r (.assessed command ((corrected || !matchesAlias t text action) && !previewed))) :=
    survives_voice only_stable fun w _ => not_direct (by intro p c h; cases h)
  obtain ⟨hinv, hnext⟩ := hask w hw
  rw [holds_ask]
  refine ⟨hinv, fun w₁ hinv₁ hgrow hrel a ha => ?_⟩
  have h₁ := hnext w₁ hinv₁ hgrow hrel a ha
  dsimp only
  split
  · exact (preview_voice action state corrected _).holds h₁ (fun _ _ h _ => h) fun _ _ h => h
  rename_i hdirect
  rw [Bool.not_eq_true] at hdirect
  subst hdirect
  unfold direct
  by_cases hinexact : (corrected || !matchesAlias t text action) = true
  · -- a correction or an inferred command: it was denied, and it still is
    rw [hinexact] at hprev hrel
    have hdenied : Denies w.st (w₀.st.routers r).plane command := by
      intro hnone
      rw [hden] at hnone
      rw [hnone] at hprev
      simp at hprev
    have hrel' : VoiceRel ((i, .voice r (.assessed command true)) :: ctx)
        (w.push i (.call (.voice r (.assessed command true)))) w₁ := hrel
    have hplane : (w.st.routers r).plane = (w₀.st.routers r).plane := (VoiceRel.routers hw.rel r).1
    have hstill : Denies w₁.st (w₀.st.routers r).plane command := by
      have := hrel'.window _ List.mem_cons_self r command rfl
      rw [World.push_st, hplane] at this
      exact this hdenied
    refine holds_bind.2 ((dispatch_denied h₁ hstill).mono fun res w₂ h₂ => ?_)
    cases res <;> exact h₂
  · -- what was said is an alias of the action
    rw [Bool.not_eq_true, Bool.or_eq_false_iff] at hinexact
    obtain ⟨hcorrected, halias⟩ := hinexact
    have hexact : Exact t (w₀.st.routers r) (some text) (some corrected) command := by
      refine ⟨by rw [hcorrected], text, rfl, action, haction, hcommand.1, hcommand.2, ?_⟩
      simp only [Bool.not_eq_false', matchesAlias, List.contains_eq_mem, decide_eq_true_eq,
        List.mem_map] at halias
      obtain ⟨name, hname, heq⟩ := halias
      exact ⟨name, hname, heq.symm⟩
    refine (dispatch_may fun r' transcript corrected' hcall => ?_).seq h₁
      (fun res w₂ h₂ _ => h₂) fun _ _ h₂ => h₂
    rw [hm] at hcall
    cases hcall
    exact hexact

theorem exclusively_voice {invalid : String} {body : VM VoiceReply}
    (h : Keeps (voiceContract t) ctx i (Own t ctx w₀ i m) body (fun _ => True)) :
    Keeps (voiceContract t) ctx i (Own t ctx w₀ i m) (exclusively r invalid body) (fun _ => True) := by
  refine (keeps_read (P := fun _ => True) fun _ _ => trivial).bind fun busy _ =>
    .ite (fun _ => keeps_pure trivial) fun _ =>
      (keeps_router (.occupy true) fun _ => ⟨rfl, rfl⟩).bind fun _ _ => ?_
  exact (keeps_onValueError h (keeps_pure trivial)).lastly
    (keeps_router (.occupy false) fun _ => ⟨rfl, rfl⟩)

theorem handle_voice {transcript : Option String} {corrected : Option Bool}
    (hm : m = .handle r transcript corrected) :
    Keeps (voiceContract t) ctx i (Own t ctx w₀ i m) (handle t r transcript corrected)
      (fun _ => True) := by
  refine exclusively_voice (((own_steady 0).voiceState r).bind fun state _ => ?_)
  cases available state with
  | some denial => exact keeps_pure trivial
  | none =>
    refine (attends_voice.activate state).bind fun activated _ => ?_
    cases activated with
    | some denial => exact keeps_pure trivial
    | none =>
      cases corrected with
      | none => exact keeps_pure trivial
      | some corrected =>
        cases transcript with
        | none => exact keeps_throw
        | some text =>
          refine (attends_voice.candidates (fun w hw => (VoiceRel.routers hw.rel r).2) text).bind fun found hfound => ?_
          refine ((own_steady 0).voiceState r).bind fun now _ => ?_
          refine .ite (fun _ => keeps_pure trivial) fun _ => keeps_readRouter.bind fun router hrouter => ?_
          cases hact : (found.head?.map Candidate.action <|> router.actions.head?) with
          | none => exact keeps_throw
          | some action =>
            have haction : action ∈ (w₀.st.routers r).actions := by
              cases found with
              | nil =>
                rw [← hrouter.2]
                exact List.mem_of_mem_head? (by simpa using hact)
              | cons c rest =>
                cases hact
                exact hfound c List.mem_cons_self
            refine (attends_voice.command action state _).bind fun command hcommand => ?_
            refine .ite (fun _ => attends_voice.clarify _ _) fun _ => ?_
            rw [hrouter.1]
            exact decide_voice hm haction hcommand

/-! ## `confirm` -/

theorem confirmBody_voice {token : Option String} {channel : String} {answer : Reply}
    (hm : ∀ r transcript corrected, m ≠ .handle r transcript corrected) :
    Keeps (voiceContract t) ctx i (Own t ctx w₀ i m) (confirmBody t r token channel answer)
      (fun _ => True) := by
  have hanswered : ∀ q tok state approved, Keeps (voiceContract t) ctx i (Own t ctx w₀ i m)
      (answered t r q tok channel state approved) (fun _ => True) :=
    fun q tok state approved => (keeps_router (.drop tok) fun _ => ⟨rfl, rfl⟩).bind fun _ _ =>
      (Attends.binding state).bind fun bound _ => (confirm_voice (.inr hm)).bind fun _ _ =>
        keeps_pure trivial
  refine ((own_steady 0).voiceState r).bind fun state _ => ?_
  cases available state with
  | some denial => exact keeps_pure trivial
  | none =>
    refine keeps_readRouter.bind fun router _ => ?_
    cases token.bind fun tok => (router.previews.get tok).map fun v => (tok, v) with
    | none => exact keeps_pure trivial
    | some v =>
      refine (Attends.binding state).bind fun bound _ => .ite (fun _ => ?_) fun _ => .ite (fun _ => ?_)
        fun _ => ?_
      · exact (keeps_router (.drop _) fun _ => ⟨rfl, rfl⟩).bind fun _ _ => (Attends.binding state).bind fun _ _ =>
          (confirm_voice (.inl rfl)).bind fun _ _ => keeps_pure trivial
      · refine (attends_voice.activate state).bind fun activated _ => ?_
        cases activated with
        | some denial => exact keeps_pure trivial
        | none =>
          cases answer with
          | text s =>
            refine .ite (fun _ => (attends_voice.prompt _ _ _ _).bind fun failure _ => ?_) fun _ =>
              hanswered _ _ _ _
            cases failure <;> exact keeps_pure trivial
          | _ => exact keeps_throw
      · split
        · exact hanswered _ _ _ _
        · exact keeps_pure trivial

end Voice

end Arhugula
