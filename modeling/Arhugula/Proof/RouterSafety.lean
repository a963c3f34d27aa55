import Arhugula.Proof.RouterHandle

/-!
# Inferred voice commands: whole runs

Every method of a plane keeps the contract of previews as well. The one that could break
it is `replace_catalog`, between the assessment of a command and its dispatch, and there
the environment lifts no denial. So in every run without such a replacement, a `handle`
call executes what was said exactly (`run_exact`); with one, it may execute a command
that nobody saw a preview of (`executes_inferred`).
-/

namespace Arhugula

namespace Voice

open Reentrant Vm Plane

variable {t : Text} {ctx : List (ℕ × Op)} {i p : ℕ} {w w₀ : VWorld} {m : Call}

/-! ## The methods of a plane -/

/-- A replacement of the catalog of a plane that no call uses. -/
theorem VoiceRel.replace {catalog : List Capability} {version : ℤ}
    (husers : (w.st.planes p).catalogUsers = 0)
    (hlift : ∀ f ∈ ctx, ∀ r command, f.2 = .voice r (.assessed command true) →
      (w.st.routers r).plane = p →
      denial ((w.st.planes p).replace catalog version) command false ≠ none) :
    VoiceRel ctx w (w.put (w.st.modify p (.replace catalog version))) := by
  have hself := State.modify_self w.st p (.replace catalog version)
  have hother : ∀ q, q ≠ p → (w.st.modify p (.replace catalog version)).planes q = w.st.planes q :=
    fun q hq => State.modify_other w.st _ hq
  refine ⟨fun _ _ _ he _ _ => he, fun q => ?_, fun q => ?_, fun q hq => ?_, fun _ => ⟨rfl, rfl⟩,
    fun f hf r command hop hden => ?_⟩
  · by_cases hqp : q = p
    · rw [hqp, World.put_st, hself]
      exact ⟨rfl, rfl⟩
    · rw [World.put_st, hother q hqp]
      exact ⟨rfl, rfl⟩
  · by_cases hqp : q = p
    · rw [hqp, husers]
      exact Nat.zero_le _
    · rw [World.put_st, hother q hqp]
  · have hqp : q ≠ p := by
      intro h
      rw [h] at hq
      exact hq husers
    rw [World.put_st, hother q hqp]
  · by_cases hqp : (w.st.routers r).plane = p
    · unfold Denies
      rw [World.put_st, hqp, hself]
      exact hlift f hf r command hop hqp
    · unfold Denies at hden ⊢
      rw [World.put_st, hother _ hqp]
      exact hden

theorem catalogSnapshot_eq {catalog replacement : List Capability} {revision : Option ℤ}
    (h : catalogSnapshot catalog = .ok (replacement, revision)) : replacement = catalog := by
  unfold catalogSnapshot at h
  split at h
  · cases h
  split at h
  · cases h
  split at h
  · cases h
  split at h
  · cases h
  cases h
  rfl

/-- A replacement that lifts no denial. -/
theorem replaceCatalog_voice {catalog : List Capability} {expected version : ℤ}
    (hlift : unlifted w ctx (.plane (.replaceCatalog p catalog expected version)))
    (hst : w₀.st = w.st) (hw : Own t ctx w i m w₀) :
    Holds (voiceContract t) ctx i (replaceCatalog p catalog expected version)
      (fun _ w' => Own t ctx w i m w') w₀ := by
  unfold replaceCatalog
  split
  · exact hw
  cases hcat : catalogSnapshot catalog with
  | error e => exact hw
  | ok found =>
    obtain ⟨replacement, revision⟩ := found
    have hrep := catalogSnapshot_eq hcat
    subst hrep
    dsimp only
    split
    · exact hw
    rw [holds_bind, holds_read]
    dsimp only
    split
    · exact hw
    rename_i husers
    split
    · exact hw
    rw [holds_bind, holds_write]
    refine hw.step hw.inv (VoiceRel.replace (by simpa using husers) ?_) hw.here
    intro f hf r command hop hplane hnone
    rw [hst] at hplane hnone
    have hlifts : lifts w.st ctx (.plane (.replaceCatalog p replacement expected version)) = true := by
      unfold lifts
      rw [List.any_eq_true]
      refine ⟨f, hf, ?_⟩
      rw [hop]
      simp [hplane, hnone]
    unfold unlifted at hlift
    rw [hlifts] at hlift
    cases hlift

/-! ## Whole runs -/

/-- A call begins: it is the one call of its activation. -/
theorem own_enter (hlog : ∀ e ∈ w.log, e.frame < w.next) (hctx : ∀ f ∈ ctx, f.1 < w.next)
    (hinv : Throughout (Direct t) w.log) : Own t ctx w w.next m (w.enter m) := by
  have hpush : VoiceRel ctx w (w.push w.next (.invoke m)) := by
    refine VoiceRel.push ctx w ?_
    rintro ⟨f, hf, heq⟩
    exact absurd (hctx f hf) (by rw [heq]; exact lt_irrefl _)
  refine ⟨⟨not_direct (by intro p c h; cases h), hinv⟩,
    ⟨hpush.calls, hpush.trust, hpush.users, hpush.pinned, hpush.routers, hpush.window⟩, ?_⟩
  · intro a ha hi m' hm'
    rcases List.mem_cons.1 ha with rfl | ha
    · cases hm'
      exact ⟨rfl, rfl⟩
    · have := hlog a ha
      omega

/-- **Every method keeps the contract.** -/
theorem voiceContract_kept : (voiceContract t).Kept where
  method ctx m w hen hlog hctx hinv := by
    have h₀ : Own t ctx w w.next m (w.enter m) := own_enter hlog hctx hinv
    have hend : ∀ (r : Except Exc Return) (w' : VWorld), Own t ctx w w.next m w' →
        Throughout (Direct t) (w'.push w.next (.ret r)).log ∧
          VoiceRel ctx w (w'.push w.next (.ret r)) := by
      intro r w' h'
      refine ⟨⟨not_direct (by intro p c h; cases h), h'.inv⟩, VoiceRel.trans h'.rel ?_⟩
      exact VoiceRel.push ctx w' fun _ _ h => by cases h
    have hkeeps : ∀ {P : Return → Prop},
        Keeps (voiceContract t) ctx w.next (Own t ctx w w.next m) (callBody t m) P →
        Holds (voiceContract t) ctx w.next (callBody t m)
          (fun r w' => Throughout (Direct t) (w'.push w.next (.ret r)).log ∧
            VoiceRel ctx w (w'.push w.next (.ret r))) (w.enter m) :=
      fun h => h.holds h₀ (fun a w' h' _ => hend (.ok a) w' h') fun e w' h' => hend (.error e) w' h'
    -- what the caller gets is the value of the method, wrapped
    have hvoice : ∀ {α : Type} {f : α → Return} {body : VM α},
        Keeps (voiceContract t) ctx w.next (Own t ctx w w.next m) body (fun _ => True) →
        Keeps (voiceContract t) ctx w.next (Own t ctx w w.next m) (f <$> body) (fun _ => True) :=
      fun h => h.map fun _ _ => trivial
    have hplane : ∀ {α : Type} {f : α → Value} {body : VM α},
        Keeps (voiceContract t) ctx w.next (Own t ctx w w.next m) body (fun _ => True) →
        Keeps (voiceContract t) ctx w.next (Own t ctx w w.next m) (Return.value <$> f <$> body)
          (fun _ => True) :=
      fun h => (h.map fun _ _ => trivial).map (P := fun _ => True) fun _ _ => trivial
    cases m with
    | handle r transcript corrected => exact hkeeps (hvoice (handle_voice rfl))
    | confirm r token channel answer =>
      exact hkeeps (hvoice (exclusively_voice (confirmBody_voice fun _ _ _ h => by cases h)))
    | plane m =>
      have hno : ∀ r transcript corrected, Call.plane m ≠ .handle r transcript corrected := by
        intro r transcript corrected h
        cases h
      cases m with
      | dispatch p command canceled guard =>
        exact hkeeps (hplane (dispatch_may fun r tr co h => absurd h (hno r tr co)))
      | requestConfirmation p command key =>
        exact hkeeps (hplane requestConfirmation_voice)
      | confirm p token channel key approved guard =>
        exact hkeeps (hplane (confirm_voice (.inr hno)))
      | assess p command => exact hkeeps (hplane (keeps_assess command))
      | observeInteraction p command phase details =>
        exact hkeeps (hplane ((own_steady p).observeInteraction command phase details))
      | replaceCatalog p catalog expected version =>
        have hreplaced : Holds (voiceContract t) ctx w.next (replaceCatalog p catalog expected version)
            (fun _ w' => Own t ctx w w.next (.plane (.replaceCatalog p catalog expected version)) w')
            (w.enter _) := replaceCatalog_voice hen rfl h₀
        refine holds_bind.2 (holds_bind.2 (hreplaced.mono fun r w' h' => ?_))
        cases r with
        | ok v => exact hend _ _ h'
        | error e => exact hend _ _ h'
  crash w s _ hs := by cases hs

/-- **What a `handle` call executes was said exactly.** In every run in which no
replacement of a catalog lifts a denial between an assessment and the dispatch that
follows it: if a `handle` call executes a command, its transcript is no correction, and
an alias of an action of the router with the capability and the arguments of that command. -/
theorem run_exact (s : State) {c : Config State Op Answer Exc Call Return}
    (h : (voiceMachine t unlifted).Reachable s c) :
    ∀ newer e older, c.w.log = newer ++ e :: older → Direct t e older := by
  have hinv : Throughout (Direct t) c.w.log := Contract.sound voiceContract_kept trivial h
  intro newer e older hlog
  rw [hlog] at hinv
  exact hinv.at

/-! ## A replacement that lifts a denial -/

/-- The text functions on ASCII texts that are aliases or have a proposal, which need no
ratio. No preview is bound. -/
def ascii : Text where
  fold := String.map Char.toLower
  word c := c.isAlphanum || c = '_'
  space := Char.isWhitespace
  ratio a b := if a = b then 1 else 0
  dumps key _ := some key

/-- The voice owner's state: unmuted, in command mode. -/
def listening : VoiceState where
  context := [("agent_id", .null), ("lane_id", .null), ("model_version", .null),
    ("profile_id", .str "profile"), ("provenance", .str "test"), ("provider_id", .null),
    ("sensitivity", .str "private"), ("session_id", .str "session"), ("source", .str "terminal")]
  key := "epoch"
  activationId := "activation"
  muted := false
  mode := "command"

/-- The permissive planes, and routers with one action. -/
def oneAction : State :=
  { permissiveState with
    routers := fun _ => ⟨0, [⟨"act", 1, [], ["Do it"], "Do it"⟩], true, [], [], false⟩ }

/-- The last entry executes a command for a `handle` of this transcript. -/
def handleExecutes (transcript : String) (test : Router → Command → Bool)
    (c : Config State Op Answer Exc Call Return) : Bool :=
  match c.w.log with
  | [] => false
  | e :: older =>
    match e.act with
    | .call (.execute _ command) => older.any fun a =>
        match a.act with
        | .invoke m => Decidable.decide (a.frame = e.frame ∧ m = .handle 0 (some transcript) (some false)) &&
            test (a.st.routers 0) command
        | _ => false
    | _ => false

theorem handleExecutes_entry {transcript : String} {test : Router → Command → Bool}
    {c : Config State Op Answer Exc Call Return} (h : handleExecutes transcript test c = true) :
    ∃ e older p command a, c.w.log = e :: older ∧ e.act = .call (.execute p command) ∧ a ∈ older ∧
      a.frame = e.frame ∧ a.act = .invoke (.handle 0 (some transcript) (some false)) ∧
      test (a.st.routers 0) command = true := by
  unfold handleExecutes at h
  split at h
  · cases h
  rename_i e older hlog
  split at h
  · rename_i p command hact
    rw [List.any_eq_true] at h
    obtain ⟨a, ha, h⟩ := h
    split at h
    · rename_i m hm
      rw [Bool.and_eq_true, decide_eq_true_eq] at h
      obtain ⟨⟨hframe, rfl⟩, htest⟩ := h
      exact ⟨e, older, p, command, a, hlog, hact, ha, hframe, hm, htest⟩
    · cases h
  · cases h

/-- What `dispatch` asks, up to the execution. -/
def dispatched : List (Input Answer Call) :=
  [.reply .done, .reply (.time 0), .reply (.voiceState listening), .reply (.time 0),
    .reply (.text "e1"), .reply .done, .reply (.voiceState listening)]

/-- A transcript that is an alias. -/
def spoken : List (Input Answer Call) :=
  ([.invoke (.handle 0 (some "do it!") (some false)), .reply (.voiceState listening),
    .reply (.voiceState listening), .reply (.text "c1"), .reply (.text "k1"), .reply (.time 0),
    .reply .done] : List (Input Answer Call)) ++ dispatched

theorem run_exact_spoken :
    ∃ c e older p command a, (voiceMachine ascii unlifted).Reachable oneAction c ∧
      c.w.log = e :: older ∧ e.act = .call (.execute p command) ∧ a ∈ older ∧
      a.frame = e.frame ∧ a.act = .invoke (.handle 0 (some "do it!") (some false)) ∧
      Exact ascii (a.st.routers 0) (some "do it!") (some false) command := by
  obtain ⟨c, hc, hx⟩ := Machine.Reachable.of_run (voiceMachine ascii unlifted) oneAction spoken
    (handleExecutes "do it!" fun _ _ => true) (by decide +kernel)
  obtain ⟨e, older, p, command, a, hlog, hact, ha, hframe, hm, -⟩ := handleExecutes_entry hx
  exact ⟨c, e, older, p, command, a, hc, hlog, hact, ha, hframe, hm,
    run_exact oneAction hc [] e older hlog p command hact a ha hframe 0 _ _ hm⟩

/-- A transcript that is no alias. Its proposal claims the catalog version that comes next. -/
def proposedAhead : List (Input Answer Call) :=
  ([.invoke (.handle 0 (some "do not do it") (some false)), .reply (.voiceState listening),
    .reply (.proposals [some ⟨"act", 2, 1⟩]),
    .reply (.voiceState listening), .reply (.text "c1"), .reply (.text "k1"), .reply (.time 0),
    .invoke (.plane (.replaceCatalog 0 [⟨"act", 2, true, .safe, [], "test"⟩] 1 2)),
    .reply .done] : List (Input Answer Call)) ++ dispatched

/-- **An inferred command is executed without a preview**: the plane denies it, as it is for
another catalog; the catalog it is for is installed; and then it is dispatched. -/
theorem executes_inferred :
    ∃ c e older p command a, (voiceMachine ascii fun _ _ _ => true).Reachable oneAction c ∧
      c.w.log = e :: older ∧ e.act = .call (.execute p command) ∧ a ∈ older ∧
      a.frame = e.frame ∧ a.act = .invoke (.handle 0 (some "do not do it") (some false)) ∧
      ¬ Exact ascii (a.st.routers 0) (some "do not do it") (some false) command := by
  obtain ⟨c, hc, hx⟩ := Machine.Reachable.of_run (voiceMachine ascii fun _ _ _ => true) oneAction
    proposedAhead (handleExecutes "do not do it" fun router command =>
      !Decidable.decide (Exact ascii router (some "do not do it") (some false) command))
    (by decide +kernel)
  obtain ⟨e, older, p, command, a, hlog, hact, ha, hframe, hm, htest⟩ := handleExecutes_entry hx
  exact ⟨c, e, older, p, command, a, hc, hlog, hact, ha, hframe, hm, by simpa using htest⟩

end Voice

end Arhugula
