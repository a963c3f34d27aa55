import Arhugula.Proof.RouterSafety
import Arhugula.Reentrant.Returns
import Arhugula.Reentrant.Script

/-!
# The capacity of a router

A router refuses with `confirmation.limit` where its own table holds 128 previews. Each of these was returned by an
earlier `handle` and has been in the table ever since (`limit_full`): nothing but a `confirm` of the router takes one
out. What the plane does with its own table is not looked at. So a router may be full of previews that the plane has let
expire (`limit_outlives`).
-/

namespace Arhugula

namespace Voice

open Reentrant Vm Plane

variable {t : Text} {enter : VWorld → List (ℕ × Op) → Call → Bool} {ctx : List (ℕ × Op)} {i r q : ℕ} {w w' : VWorld}
  {s : State} {m : Call} {token : String}

/-! ## Tables -/

/-- The tokens of the previews that a router keeps. -/
def kept (s : State) (r : ℕ) : List String := (s.routers r).previews.map Prod.fst

/-- The router of a call. -/
def Call.router : Call → Option ℕ
  | .handle r _ _ => some r
  | .confirm r _ _ _ => some r
  | .plane _ => none

/-- A `handle` of router `r` returns a preview. -/
def Issues (r : ℕ) (token : String) (e : VEntry) (older : List VEntry) : Prop :=
  (∃ v, e.act = .ret (.ok (.reply v)) ∧ v.status = "preview" ∧ v.token = some token) ∧
    ∃ c ∈ older, c.frame = e.frame ∧ ∃ transcript corrected, c.act = .invoke (.handle r transcript corrected)

/-- What a router kept at the last entry. Before the first it keeps nothing. -/
def lastKept (log : List VEntry) (r : ℕ) : List String :=
  match log with
  | [] => []
  | e :: _ => kept e.st r

/-- **How the tables change from entry to entry**: they lose previews, and gain none but the one that is returned. -/
structure Follows (e : VEntry) (older : List VEntry) : Prop where
  distinct : ∀ r, (kept e.st r).Nodup
  gained : ∀ r, ∀ token ∈ kept e.st r, token ∈ lastKept older r ∨ Issues r token e older

/-- The tables since the last entry. -/
structure Tabled (w : VWorld) : Prop where
  log : Throughout Follows w.log
  distinct : ∀ r, (kept w.st r).Nodup
  held : ∀ r, ∀ token ∈ kept w.st r, token ∈ lastKept w.log r

theorem Tabled.push (h : Tabled w) (x : Act Op Answer Exc Call Return) : Tabled (w.push i x) := by
  refine ⟨⟨⟨h.distinct, fun r token ht => .inl (h.held r token ht)⟩, h.log⟩, h.distinct, fun r token ht => ?_⟩
  exact ht

/-- A change that only takes previews out. -/
theorem Tabled.put (h : Tabled w) (hs : ∀ r, (kept s r).Sublist (kept w.st r)) : Tabled (w.put s) :=
  ⟨h.log, fun r => (hs r).nodup (h.distinct r), fun r token ht => h.held r token ((hs r).mem ht)⟩

theorem kept_modify_plane (s : State) (f : ControlPlane → ControlPlane) (r : ℕ) :
    kept (s.modify q f) r = kept s r := rfl

/-- A router that changes its table takes from it. -/
theorem kept_modifyRouter (s : State) {f : Router → Router}
    (hf : ∀ x : Router, ((f x).previews.map Prod.fst).Sublist (x.previews.map Prod.fst)) (r : ℕ) :
    (kept (s.modifyRouter q f) r).Sublist (kept s r) := by
  unfold kept
  by_cases hr : r = q
  · rw [hr, State.modifyRouter_self]
    exact hf _
  · rw [State.modifyRouter_other _ _ hr]

/-- **The contract of the tables.** -/
def tableContract (t : Text) (enter : VWorld → List (ℕ × Op) → Call → Bool) : Contract (voiceMachine t enter) where
  Inv := Tabled
  Rel _ _ _ := True
  refl _ _ := trivial
  trans _ _ := trivial

/-- Activation `i` is the call `m`. -/
def Invoked (i : ℕ) (m : Call) (log : List VEntry) : Prop := ∃ c ∈ log, c.frame = i ∧ c.act = .invoke m

/-- What an activation may assume. -/
structure Going (i : ℕ) (m : Call) (w : VWorld) : Prop extends Tabled w where
  invoked : Invoked i m w.log

theorem going_survives (op : Op) : Survives (tableContract t enter) ctx i (Going i m) op := by
  intro w hw
  refine ⟨hw.toTabled.push _, fun w' hi hg _ a _ => ⟨Tabled.push hi _, ?_⟩⟩
  obtain ⟨c, hc, hf, hact⟩ := hw.invoked
  have hmem : c ∈ w'.log := hg.mem (List.mem_cons_of_mem _ hc)
  exact ⟨c, List.mem_cons_of_mem _ hmem, hf, hact⟩

theorem going_put (h : Going i m w) (hs : ∀ r, (kept s r).Sublist (kept w.st r)) : Going i m (w.put s) :=
  ⟨h.toTabled.put hs, h.invoked⟩

theorem going_modify (h : Going i m w) (f : ControlPlane → ControlPlane) : Going i m (w.put (w.st.modify q f)) :=
  going_put h fun _ => List.Sublist.refl _

theorem going_steady : Steady (tableContract t enter) ctx i q (Going i m) where
  ask op _ := going_survives op
  seen _ _ h := going_modify h _
  journal _ _ _ h _ := going_put h fun _ => List.Sublist.refl _

theorem going_attends : Attends (tableContract t enter) ctx i r (Going i m) where
  steady _ := going_steady
  activated w _ h := going_put h (kept_modifyRouter w.st fun _ => List.Sublist.refl _)

/-! ## The methods of a plane -/

theorem keeps_plane_write (f : ControlPlane → ControlPlane) :
    Keeps (tableContract t enter) ctx i (Going i m) (Prog.write fun s => s.modify q f) (fun _ => True) :=
  keeps_write fun _ h => going_modify h f

theorem keeps_using {α : Type} {P : α → Prop} {body : VM α}
    (h : Keeps (tableContract t enter) ctx i (Going i m) body P) :
    Keeps (tableContract t enter) ctx i (Going i m) (catalogUse q body) P := by
  unfold catalogUse
  refine (keeps_plane_write _).bind fun _ _ => ?_
  exact h.lastly (keeps_plane_write _)

theorem keeps_dispatching (command : Command) (canceled confirmed : Bool) (guard : Option Guard) :
    Keeps (tableContract t enter) ctx i (Going i m) (dispatchBody q command canceled confirmed guard)
      (fun _ => True) := by
  refine going_steady.dispatchBody (A := True) command canceled confirmed guard (going_survives _) (fun pending => ?_)
    fun _ _ => going_survives _
  exact (going_steady.authorize _ _ _ _ _).weaken fun _ _ _ => trivial

theorem keeps_dispatch (command : Command) (canceled : Option Bool) (guard : Option Guard) :
    Keeps (tableContract t enter) ctx i (Going i m) (dispatch q command canceled guard) (fun _ => True) := by
  unfold dispatch
  refine (keeps_snapshotCommand command).bind fun _ _ => ?_
  cases canceled with
  | none => exact keeps_throw
  | some canceled => exact keeps_using (keeps_dispatching command canceled false guard)

theorem keeps_requesting (command : Command) (key : Option String) :
    Keeps (tableContract t enter) ctx i (Going i m) (requestConfirmation q command key) (fun _ => True) := by
  unfold requestConfirmation
  refine (keeps_snapshotCommand command).bind fun _ _ => ?_
  split
  · exact keeps_throw
  · exact keeps_using (going_steady.issuePreview command _ fun _ f _ h => going_modify h f)

theorem keeps_confirming (token : Option String) (channel : String) (key : Option String) (approved : Option Bool)
    (guard : Option Guard) :
    Keeps (tableContract t enter) ctx i (Going i m) (Plane.confirm q token channel key approved guard)
      (fun _ => True) := by
  unfold Plane.confirm
  refine keeps_using ((keeps_read (P := fun _ => True) fun _ _ => trivial).bind fun s _ => ?_)
  split
  · exact keeps_throw
  · refine (keeps_plane_write _).bind fun _ _ => ?_
    exact going_steady.confirmPreview _ _ _ _ _ _ fun b _ => keeps_dispatching _ _ _ _

theorem keeps_replacing (catalog : List Capability) (expected version : ℤ) :
    Keeps (tableContract t enter) ctx i (Going i m) (replaceCatalog q catalog expected version) (fun _ => True) := by
  unfold replaceCatalog
  refine .ite (fun _ => keeps_throw) fun _ => ?_
  split
  · exact keeps_throw
  · refine .ite (fun _ => keeps_throw) fun _ => ?_
    refine (keeps_read (P := fun _ => True) fun _ _ => trivial).bind fun s _ => ?_
    refine .ite (fun _ => keeps_throw) fun _ => .ite (fun _ => keeps_throw) fun _ => ?_
    exact (keeps_plane_write _).bind fun _ _ => keeps_pure trivial

/-- **No method of a plane touches the table of a router.** -/
theorem keeps_method (method : Method) :
    Keeps (tableContract t enter) ctx i (Going i m) (Plane.body method) (fun _ => True) := by
  cases method with
  | dispatch p command canceled guard => exact (keeps_dispatch command canceled guard).map fun _ _ => trivial
  | requestConfirmation p command key => exact (keeps_requesting command key).map fun _ _ => trivial
  | confirm p token channel key approved guard =>
    exact (keeps_confirming token channel key approved guard).map fun _ _ => trivial
  | replaceCatalog p catalog expected version => exact (keeps_replacing catalog expected version).map fun _ _ => trivial
  | assess p command => exact (keeps_assess command).map fun _ _ => trivial
  | observeInteraction p command phase details =>
    exact (going_steady.observeInteraction command phase details).map fun _ _ => trivial

/-! ## The replies of a router -/

/-- The refusal of a full router. -/
def limited : VoiceReply := blocked "confirmation.limit"

/-- A reply that has a result is no refusal of a full router. -/
theorem unlimited_result {v : VoiceReply} (h : v.result ≠ none) : v ≠ limited := by
  rintro rfl
  exact h rfl

theorem unlimited_status {v : VoiceReply} (h : v.status ≠ "blocked") : v ≠ limited := by
  rintro rfl
  exact h rfl

theorem unlimited_report (success : String) (res : Result) : report success res ≠ limited := by
  apply unlimited_result
  unfold report
  simp

theorem available_unlimited {state : VoiceState} {denial : String} (h : available state = some denial) :
    blocked denial ≠ limited := by
  unfold available at h
  split at h
  · cases h
    decide
  · split at h
    · cases h
      decide
    · cases h

section Replies

variable (h : Attends (tableContract t enter) ctx i r (Going i m))
include h

theorem keeps_activate (state : VoiceState) :
    Keeps (tableContract t enter) ctx i (Going i m) (activate r state)
      (fun denial => ∀ code, denial = some code → blocked code ≠ limited) := by
  unfold activate
  refine (keeps_read (P := fun _ => True) fun _ _ => trivial).bind fun router _ => ?_
  refine .ite (fun _ => keeps_pure fun code hc => ?_) fun _ => .ite (fun _ => keeps_pure fun code hc => ?_) fun _ => ?_
  · cases hc
    decide
  · cases hc
    decide
  · refine (keeps_write fun w hw => h.activated w _ hw).bind fun _ _ => keeps_pure fun code hc => ?_
    cases hc

theorem keeps_speak (text : String) (state : VoiceState) :
    Keeps (tableContract t enter) ctx i (Going i m) (speak r text state)
      (fun failure => ∀ v, failure = some v → v ≠ limited) := by
  have hcurrent : Keeps (tableContract t enter) ctx i (Going i m) (current r state) fun _ => True :=
    (h.steady 0).current r state
  unfold speak
  refine hcurrent.bind fun _ _ => .ite (fun _ => ?_) fun _ => keeps_pure fun v hv => ?_
  · refine (h.steady 0).answer rfl fun a => ?_
    cases a with
    | raised e =>
      refine .ite (fun _ => keeps_pure fun v hv => ?_) fun _ => keeps_throw
      cases hv
      decide
    | _ => exact keeps_pure fun v hv => by cases hv
  · cases hv
    decide

theorem keeps_prompt (command : Command) (phase : Phase) (text : String) (details : Mapping Json) (state : VoiceState) :
    Keeps (tableContract t enter) ctx i (Going i m) (prompt r q command phase text details state)
      (fun failure => ∀ v, failure = some v → v ≠ limited) := by
  unfold prompt
  refine Keeps.bind (P := fun _ => True) (keeps_onException
    (((h.steady q).observeInteraction command phase details).bind fun _ _ => keeps_pure trivial)
    (keeps_pure trivial)) fun observed _ => ?_
  refine .ite (fun _ => keeps_speak h _ _) fun _ => keeps_pure fun v hv => ?_
  cases hv
  decide

theorem keeps_clarify (actions : List Action) (command : Command) (state : VoiceState) :
    Keeps (tableContract t enter) ctx i (Going i m) (clarify r q actions command state) (fun v => v ≠ limited) := by
  unfold clarify
  refine (keeps_prompt h _ _ _ _ _).bind fun failure hfailure => ?_
  cases failure with
  | some v => exact keeps_pure (hfailure v rfl)
  | none =>
    have hstatus : "clarify" ≠ "blocked" := by decide
    exact keeps_pure (unlimited_status hstatus)

end Replies

/-- How a call ends: it has returned or raised `res`. -/
structure Ended (i : ℕ) (m : Call) (res : Except Exc Return) (w : VWorld) : Prop where
  log : Throughout Follows w.log
  invoked : Invoked i m w.log
  distinct : ∀ r, (kept w.st r).Nodup
  gained : ∀ r, ∀ token ∈ kept w.st r, token ∈ lastKept w.log r ∨
    (∃ transcript corrected, m = .handle r transcript corrected) ∧
      ∃ v, res = .ok (.reply v) ∧ v.status = "preview" ∧ v.token = some token
  full : res = .ok (.reply limited) → ∀ r, m.router = some r → 128 ≤ (kept w.st r).length

theorem Going.ended {res : Except Exc Return} (h : Going i m w) (hres : res ≠ .ok (.reply limited)) :
    Ended i m res w :=
  ⟨h.log, h.invoked, h.distinct, fun r token ht => .inl (h.held r token ht), fun hf => absurd hf hres⟩

theorem Going.raised {e : Exc} (h : Going i m w) : Ended i m (.error e) w := by
  refine h.ended fun hr => ?_
  cases hr

theorem Going.replied {v : VoiceReply} (h : Going i m w) (hv : v ≠ limited) : Ended i m (.ok (.reply v)) w := by
  refine h.ended fun hr => hv ?_
  injection Except.ok.inj hr

/-- What the body of a router leaves. -/
abbrev Replied (i : ℕ) (m : Call) (res : Except Exc VoiceReply) (w : VWorld) : Prop := Ended i m (res.map .reply) w

theorem Keeps.replied {body : VM VoiceReply}
    (h : Keeps (tableContract t enter) ctx i (Going i m) body (fun v => v ≠ limited)) (hw : Going i m w) :
    Holds (tableContract t enter) ctx i body (Replied i m) w :=
  h.holds hw (fun _ _ hw' hv => hw'.replied hv) fun _ _ hw' => hw'.raised

/-- What is raised leaves the tables as they were. -/
theorem Ended.going {e : Exc} (h : Ended i m (.error e) w) : Going i m w := by
  refine ⟨⟨h.log, h.distinct, fun x token ht => (h.gained x token ht).resolve_right ?_⟩, h.invoked⟩
  rintro ⟨-, v, hv, -⟩
  cases hv

/-- A router is let go of. -/
theorem Ended.let_go {res : Except Exc Return} (h : Ended i m res w) (r : ℕ) :
    Ended i m res (w.put (w.st.modifyRouter r (.occupy false))) := by
  have hsame : ∀ x, kept (w.st.modifyRouter r (.occupy false)) x = kept w.st x := by
    intro x
    unfold kept
    by_cases hx : x = r
    · rw [hx, State.modifyRouter_self]
      rfl
    · rw [State.modifyRouter_other _ _ hx]
  refine ⟨h.log, h.invoked, fun x => ?_, fun x token ht => ?_, fun hf x hx => ?_⟩
  · rw [World.put_st, hsame]
    exact h.distinct x
  · rw [World.put_st, hsame] at ht
    exact h.gained x token ht
  · rw [World.put_st, hsame]
    exact h.full hf x hx

theorem keeps_router_write (f : Router → Router)
    (hf : ∀ x : Router, ((f x).previews.map Prod.fst).Sublist (x.previews.map Prod.fst)) :
    Keeps (tableContract t enter) ctx i (Going i m) (Prog.write fun s => s.modifyRouter q f) (fun _ => True) :=
  keeps_write fun w h => going_put h (kept_modifyRouter w.st hf)

theorem drop_sublist (token : String) (x : Router) :
    ((x.drop token).previews.map Prod.fst).Sublist (x.previews.map Prod.fst) :=
  List.filter_sublist.map Prod.fst

section Handle

variable {transcript : Option String} {corrected : Option Bool}

/-- **A preview is kept where it is returned**, and refused where the table is full. -/
theorem holds_preview (hm : m = .handle r transcript corrected) (hw : Going i m w) (action : Action)
    (command : Command) (state : VoiceState) (changed inferred : Bool) :
    Holds (tableContract t enter) ctx i (preview t r q action command state changed inferred) (Replied i m) w := by
  unfold preview
  rw [holds_bind, holds_read]
  dsimp only
  split
  · rename_i hfull
    refine ⟨hw.log, hw.invoked, hw.distinct, fun x token ht => .inl (hw.held x token ht), fun _ x hx => ?_⟩
    rw [hm] at hx
    cases hx
    unfold kept
    rw [List.length_map]
    exact hfull
  refine (Attends.binding state).seq hw (fun bound w₁ h₁ _ => ?_) fun _ _ h₁ => h₁.raised
  refine Keeps.seq (P := fun _ => True) ?_ h₁ (fun issued w₂ h₂ _ => ?_) fun _ _ h₂ => h₂.raised
  · refine Keeps.catching ((keeps_requesting command _).map fun _ _ => trivial) fun e => ?_
    cases e with
    | confirmation _ => exact keeps_pure trivial
    | _ => exact keeps_fail
  cases issued with
  | none => exact h₂.replied (by decide)
  | some confirmation =>
    dsimp only
    refine (keeps_speak going_attends _ _).seq h₂ (fun failure w₃ h₃ hfailure => ?_) fun _ _ h₃ => h₃.raised
    cases failure with
    | some failure =>
      refine (Attends.binding state).seq h₃ (fun bound w₄ h₄ _ => ?_) fun _ _ h₄ => h₄.raised
      refine (keeps_confirming _ _ _ _ _).seq h₄ (fun _ w₅ h₅ _ => ?_) fun _ _ h₅ => h₅.raised
      exact h₅.replied (hfailure failure rfl)
    | none =>
      refine (Attends.binding state).seq h₃ (fun bound w₄ h₄ _ => ?_) fun _ _ h₄ => h₄.raised
      rw [holds_bind, holds_write]
      have hself : kept (w₄.st.modifyRouter r (.keep confirmation bound)) r =
          confirmation.token :: (kept w₄.st r).filter fun token => token ≠ confirmation.token := by
        unfold kept
        rw [State.modifyRouter_self]
        simp only [Router.keep, List.map_cons, List.filter_map]
        rfl
      have hother : ∀ x, x ≠ r → kept (w₄.st.modifyRouter r (.keep confirmation bound)) x = kept w₄.st x := by
        intro x hx
        unfold kept
        rw [State.modifyRouter_other _ _ hx]
      refine ⟨h₄.log, h₄.invoked, fun x => ?_, fun x token ht => ?_, fun hf x hx => ?_⟩
      · by_cases hx : x = r
        · subst hx
          rw [World.put_st, hself]
          refine List.nodup_cons.2 ⟨fun hmem => ?_, (h₄.distinct x).filter _⟩
          have hne := (List.mem_filter.1 hmem).2
          simp at hne
        · rw [World.put_st, hother x hx]
          exact h₄.distinct x
      · by_cases hx : x = r
        · subst hx
          rw [World.put_st, hself] at ht
          rcases List.mem_cons.1 ht with rfl | ht
          · exact .inr ⟨⟨_, _, hm⟩, _, rfl, rfl, rfl⟩
          · exact .inl (h₄.held x token (List.mem_filter.1 ht).1)
        · rw [World.put_st, hother x hx] at ht
          exact .inl (h₄.held x token ht)
      · have hstatus : "preview" ≠ "blocked" := by decide
        have hreply := Return.reply.inj (Except.ok.inj hf)
        exact absurd hreply (unlimited_status hstatus)

theorem keeps_direct (command : Command) (state : VoiceState) :
    Keeps (tableContract t enter) ctx i (Going i m) (direct r q command state) (fun v => v ≠ limited) := by
  unfold direct
  refine (keeps_dispatch command _ _).bind fun res _ => keeps_pure (unlimited_result ?_)
  simp

theorem holds_decide (hm : m = .handle r transcript corrected) (hw : Going i m w) (text : String) (action : Action)
    (command : Command) (state : VoiceState) (changed : Bool) :
    Holds (tableContract t enter) ctx i (decide t r q text action command state changed) (Replied i m) w := by
  unfold decide
  refine (keeps_assess command).seq hw (fun denial w₁ h₁ _ => ?_) fun _ _ h₁ => h₁.raised
  refine (keeps_ask (going_survives _)).seq h₁ (fun _ w₂ h₂ _ => ?_) fun _ _ h₂ => h₂.raised
  split
  · exact holds_preview hm h₂ action command state changed _
  · exact Keeps.replied (keeps_direct command state) h₂

/-! ## The methods of a router -/

theorem keeps_candidates (text : String) :
    Keeps (tableContract t enter) ctx i (Going i m) (candidates t r text) (fun _ => True) := by
  have hsteady : Steady (tableContract t enter) ctx i 0 (Going i m) := going_steady
  unfold candidates
  refine (keeps_read (P := fun _ => True) fun _ _ => trivial).bind fun router _ => ?_
  refine .ite (fun _ => keeps_pure trivial) fun _ => .ite (fun _ => ?_) fun _ => keeps_pure trivial
  refine keeps_onException (hsteady.answer rfl fun a => ?_) (keeps_pure trivial)
  cases a with
  | proposals values =>
    refine .ite (fun _ => keeps_throw) fun _ => ?_
    split
    · exact keeps_pure trivial
    · exact keeps_throw
  | _ => exact keeps_throw

theorem holds_handleBody (hm : m = .handle r transcript corrected) (hw : Going i m w) :
    Holds (tableContract t enter) ctx i (handleBody t r transcript corrected) (Replied i m) w := by
  have hattends : Attends (tableContract t enter) ctx i r (Going i m) := going_attends
  unfold handleBody
  refine hattends.voiceState.seq hw (fun state w₁ h₁ _ => ?_) fun _ _ h₁ => h₁.raised
  cases havailable : available state with
  | some denial => exact h₁.replied (available_unlimited havailable)
  | none =>
    dsimp only
    refine (keeps_activate hattends state).seq h₁ (fun activated w₂ h₂ hactivated => ?_) fun _ _ h₂ => h₂.raised
    cases activated with
    | some denial => exact h₂.replied (hactivated denial rfl)
    | none =>
      cases corrected with
      | none => exact h₂.replied (by decide)
      | some corrected =>
        cases transcript with
        | none => exact h₂.raised
        | some text =>
          dsimp only
          refine (keeps_candidates text).seq h₂ (fun found w₃ h₃ _ => ?_) fun _ _ h₃ => h₃.raised
          refine hattends.voiceState.seq h₃ (fun now w₄ h₄ _ => ?_) fun _ _ h₄ => h₄.raised
          split
          · exact h₄.replied (by decide)
          rw [holds_bind, holds_read]
          dsimp only
          split
          · exact h₄.raised
          · refine (hattends.command _ state _).seq h₄ (fun command w₅ h₅ _ => ?_) fun _ _ h₅ => h₅.raised
            split
            · exact Keeps.replied (keeps_clarify hattends _ _ _) h₅
            · exact holds_decide hm h₅ _ _ _ _ _

end Handle

theorem keeps_answered (token channel : String) (state : VoiceState) (approved : Bool) :
    Keeps (tableContract t enter) ctx i (Going i m) (answered t r q token channel state approved)
      (fun v => v ≠ limited) := by
  unfold answered
  refine (keeps_router_write _ (drop_sublist token)).bind fun _ _ => ?_
  refine (Attends.binding state).bind fun bound _ => ?_
  exact (keeps_confirming _ _ _ _ _).bind fun res _ => keeps_pure (unlimited_report _ res)

theorem keeps_confirmBody (token : Option String) (channel : String) (answer : Reply) :
    Keeps (tableContract t enter) ctx i (Going i m) (confirmBody t r token channel answer) (fun v => v ≠ limited) := by
  have hattends : Attends (tableContract t enter) ctx i r (Going i m) := going_attends
  unfold confirmBody
  refine hattends.voiceState.bind fun state _ => ?_
  cases havailable : available state with
  | some denial => exact keeps_pure (available_unlimited havailable)
  | none =>
    refine (keeps_read (P := fun _ => True) fun _ _ => trivial).bind fun router _ => ?_
    dsimp only
    split
    · exact keeps_pure (by decide)
    · refine (Attends.binding state).bind fun bound _ => .ite (fun _ => ?_) fun _ => .ite (fun _ => ?_) fun _ => ?_
      · refine (keeps_router_write _ (drop_sublist _)).bind fun _ _ => ?_
        refine (Attends.binding state).bind fun bound _ => ?_
        exact (keeps_confirming _ _ _ _ _).bind fun res _ => keeps_pure (unlimited_report _ res)
      · refine (keeps_activate hattends state).bind fun activated hactivated => ?_
        cases activated with
        | some denial => exact keeps_pure (hactivated denial rfl)
        | none =>
          cases answer with
          | text answered =>
            refine .ite (fun _ => ?_) fun _ => keeps_answered _ _ _ _
            refine (keeps_prompt hattends _ _ _ _ _).bind fun failure hfailure => ?_
            cases failure with
            | some v => exact keeps_pure (hfailure v rfl)
            | none =>
              have hstatus : "clarify" ≠ "blocked" := by decide
              exact keeps_pure (unlimited_status hstatus)
          | _ => exact keeps_throw
      · split
        · exact keeps_answered _ _ _ _
        · exact keeps_pure (by decide)

/-- **The methods of a router**, one at a time. -/
theorem holds_exclusively (hw : Going i m w) {invalid : String} (hinvalid : blocked invalid ≠ limited)
    {body : VM VoiceReply} (h : ∀ w, Going i m w → Holds (tableContract t enter) ctx i body (Replied i m) w) :
    Holds (tableContract t enter) ctx i (exclusively r invalid body) (Replied i m) w := by
  unfold exclusively
  rw [holds_bind, holds_read]
  dsimp only
  split
  · have hbusy : blocked "voice.busy" ≠ limited := by decide
    exact hw.replied hbusy
  have hoccupied : Going i m (w.put (w.st.modifyRouter r (.occupy true))) :=
    going_put hw (kept_modifyRouter w.st fun _ => List.Sublist.refl _)
  rw [holds_bind, holds_write]
  dsimp only
  rw [holds_lastly]
  unfold onValueError
  rw [holds_catching]
  refine (h _ hoccupied).mono fun res w' hended => ?_
  cases res with
  | ok v => exact hended.let_go r
  | error e =>
    have hcaught : Ended i m (.ok (.reply (blocked invalid))) w' := hended.going.replied hinvalid
    cases e with
    | contract text => exact hcaught.let_go r
    | confirmation text => exact hcaught.let_go r
    | value text => exact hcaught.let_go r
    | journal text => exact hcaught.let_go r
    | callback => exact hended.let_go r
    | interrupt => exact hended.let_go r

/-! ## Whole runs -/

theorem Ended.tabled {res : Except Exc Return} (h : Ended i m res w) : Tabled (w.push i (.ret res)) := by
  refine ⟨⟨⟨h.distinct, fun r token ht => ?_⟩, h.log⟩, h.distinct, fun r token ht => ht⟩
  refine (h.gained r token ht).imp_right ?_
  rintro ⟨⟨transcript, corrected, rfl⟩, v, rfl, hstatus, htoken⟩
  obtain ⟨c, hc, hf, hact⟩ := h.invoked
  exact ⟨⟨v, rfl, hstatus, htoken⟩, c, hc, hf, transcript, corrected, hact⟩

/-- The body of a router, called. -/
theorem holds_replied {body : VM VoiceReply} (h : Holds (tableContract t enter) ctx i body (Replied i m) w) :
    Holds (tableContract t enter) ctx i (Return.reply <$> body) (Ended i m) w := by
  refine holds_bind.2 (h.mono fun res w' hended => ?_)
  cases res with
  | ok v => exact hended
  | error e => exact hended

/-- **Every call keeps the tables as they are**, but for the preview that it returns. -/
theorem holds_call (hw : Going i m w) : Holds (tableContract t enter) ctx i (callBody t m) (Ended i m) w := by
  cases m with
  | plane method =>
    have hbody : Keeps (tableContract t enter) ctx i (Going i (.plane method)) (callBody t (.plane method))
        (fun res => res ≠ .reply limited) := by
      refine (keeps_method method).map fun value _ hvalue => ?_
      cases hvalue
    refine hbody.holds hw (fun res w' h' hres => h'.ended fun hr => ?_) fun _ _ h' => h'.raised
    exact hres (Except.ok.inj hr)
  | handle r transcript corrected =>
    have hinvalid : blocked "voice.invalid" ≠ limited := by decide
    exact holds_replied (holds_exclusively hw hinvalid fun _ h => holds_handleBody rfl h)
  | confirm r token channel answer =>
    have hinvalid : blocked "confirmation.invalid" ≠ limited := by decide
    exact holds_replied (holds_exclusively hw hinvalid fun _ h =>
      Keeps.replied (keeps_confirmBody token channel answer) h)

theorem going_enter (h : Tabled w) (m : Call) : Going w.next m (w.enter m) := by
  have hpushed : Tabled (w.push w.next (.invoke m)) := h.push _
  exact ⟨⟨hpushed.log, hpushed.distinct, hpushed.held⟩, _, List.mem_cons_self, rfl, rfl⟩

theorem tableContract_kept : (tableContract t enter).Kept where
  method ctx m w _ _ _ hinv :=
    (holds_call (going_enter hinv m)).mono fun _ _ hended => ⟨hended.tabled, trivial⟩
  crash _ _ _ hcrash := by cases hcrash

/-- What the return of a router owes: it is a refusal of a full table only where the table is full. -/
def Full (m : Call) (_ : State) (res : Except Exc Return) (_ : ℕ) (_ : List VEntry) (s : State) : Prop :=
  res = .ok (.reply limited) → ∀ r, m.router = some r → 128 ≤ (kept s r).length

theorem tableContract_full : ((tableContract t enter).owing Full).Kept := by
  refine tableContract_kept.owing ⟨fun _ h => h, fun _ _ _ h => h⟩ fun ctx m w _ _ hinv => ?_
  exact (holds_call (going_enter hinv m)).mono fun _ _ hended => hended.full

/-! ## A router whose previews expire -/

/-- The one action of a router. -/
def doing : Action := ⟨"act", 1, [], ["do it"], "Do it"⟩

/-- A name of length `n`. -/
def name (n : ℕ) : String := String.ofList (List.replicate n 'x')

theorem name_injective {n k : ℕ} : name n = name k ↔ n = k := by
  constructor
  · intro h
    have hlist := congrArg String.length h
    simpa [name] using hlist
  · rintro rfl
    rfl

/-- The command of every preview. -/
def asked : Command :=
  ⟨"c1", "k1", "act", 1, 0, [],
    ⟨"session", "profile", none, none, .voice, none, none, "test", .«private»⟩⟩

/-- What is recorded of every preview. -/
def shown : Interaction :=
  ⟨"e1", asked.commandId, asked.correlationId, 0, asked.context, .preview, [("capability_id", .str "act")]⟩

/-- The preview of round `n`, 30 seconds after the one before it. -/
def issued (n : ℕ) : Confirmation := ⟨name n, asked, 30000 * n⟩

/-- The plane after `n` rounds: it holds the last preview alone. -/
def lone : ℕ → ControlPlane
  | 0 => permissive
  | n + 1 => { permissive with confirmations := [(name (n + 1), issued (n + 1), "epoch")] }

/-- What the router keeps after `n` rounds. -/
def piled : ℕ → Mapping (Confirmation × String)
  | 0 => []
  | n + 1 => (name (n + 1), issued (n + 1), "epoch") :: piled n

def used : ℕ → List String
  | 0 => []
  | n + 1 => name (n + 1) :: used n

def recorded : ℕ → Journal
  | 0 => []
  | _ + 1 => [.interaction shown]

/-- The state after `n` rounds. -/
def pile (n : ℕ) : State where
  planes p := if p = 0 then lone n else permissive
  routers r := if r = 0 then ⟨0, [doing], true, used n, piled n, false⟩ else ⟨0, [doing], true, [], [], false⟩
  journal := recorded n

def listeningAs (n : ℕ) : VoiceState := { listening with activationId := name n }

def prologue (n : ℕ) : List Answer :=
  [.voiceState (listeningAs n), .voiceState (listeningAs n), .text "c1", .text "k1", .time 0, .done]

def answers (n : ℕ) : List Answer :=
  prologue (n + 1) ++ [Answer.time (30000 * n), .text (name (n + 1)), .text "e1", .time 0, .done,
    .voiceState (listeningAs (n + 1)), .done]

theorem piled_length (n : ℕ) : (piled n).length = n := by
  induction n with
  | zero => rfl
  | succ n ih => simp [piled, ih]

theorem used_length (n : ℕ) : (used n).length = n := by
  induction n with
  | zero => rfl
  | succ n ih => simp [used, ih]

theorem used_fresh {n k : ℕ} (h : n < k) : name k ∉ used n := by
  induction n with
  | zero => simp [used]
  | succ n ih =>
    have hne : k ≠ n + 1 := h.ne'
    simp [used, name_injective, hne, ih (by omega)]

theorem piled_fresh {n k : ℕ} (h : n < k) : (piled n).filter (fun item => item.1 ≠ name k) = piled n := by
  induction n with
  | zero => rfl
  | succ n ih =>
    have hne : n + 1 ≠ k := h.ne
    have ih := ih (by omega)
    simp [piled, name_injective, hne] at ih ⊢
    exact ih

theorem play_voiceState {s : State} {as : List Answer} (r n : ℕ) :
    play (voiceState r) s (.voiceState (listeningAs (n+1)) :: as) = some (.ok (listeningAs (n+1)), s, as) := by
  have hkey : "epoch" ≠ "" := by decide
  have hname : (listeningAs (n+1)).activationId ≠ "" := by
    intro h
    have := congrArg String.length h
    simp [listeningAs, name] at this
  simp only [voiceState, play_bind, play_ask, Option.bind_some, after_ok]
  rw [if_neg]
  · rfl
  · simp [hname]
    exact hkey

theorem available_listening (n : ℕ) : available (listeningAs n) = none := rfl

theorem play_command {s : State} {as : List Answer} (r n : ℕ) :
    play (command r doing (listeningAs n) (some 1)) s (.text "c1" :: .text "k1" :: .time 0 :: as) =
      some (.ok asked, s, as) := by
  rfl

theorem play_candidates {s : State} {as : List Answer} (hs : (s.routers 0).actions = [doing]) :
    play (candidates ascii 0 "do it") s as = some (.ok [⟨doing, 1, 1⟩], s, as) := by
  have hmatch : matchesAlias ascii "do it" doing = true := by decide +kernel
  simp [candidates, hs, hmatch]
  rfl

theorem play_assess {s : State} {as : List Answer} (n : ℕ) (hs : s.planes 0 = lone n) :
    play (assess 0 asked) s as = some (.ok none, s, as) := by
  have hdenial : denial (lone n) asked false = none := by
    cases n with
    | zero => decide
    | succ n => rfl
  have hformed : snapshotCommand asked = pure () := rfl
  simp [assess, hformed, hs, hdenial]

theorem play_speak {s : State} {as : List Answer} (n : ℕ) (text : String) :
    play (speak 0 text (listeningAs (n + 1))) s (.voiceState (listeningAs (n + 1)) :: .done :: as) =
      some (.ok none, s, as) := by
  simp [speak, current, onException, play_voiceState, available_listening]

theorem play_append {s : State} {as : List Answer} {r : Record} {j : Journal} (h : s.journal.append r = some j) :
    play (append r) s (.done :: as) = some (.ok (), { s with journal := j }, as) := by
  simp only [append, play_bind, play_ask, play_read, Option.bind_some, after_ok, h, play_write]

theorem play_observe {s : State} {as : List Answer} (n : ℕ) (hs : s.journal = recorded n) :
    play (observeInteraction 0 asked .preview [("capability_id", .str "act")]) s
      (.text "e1" :: .time 0 :: .done :: as) =
      some (.ok (), { s with journal := recorded (n + 1) }, as) := by
  have hasked : snapshotCommand asked = pure () := rfl
  have hshown : shown.wellFormed = true := by decide +kernel
  have happend : s.journal.append (.interaction shown) = some (recorded (n + 1)) := by
    rw [hs]
    cases n with
    | zero => rfl
    | succ n => rfl
  simp only [observeInteraction, hasked, identifiers, clock, play_bind, play_pure, play_ask, Option.bind_some, after_ok]
  show play (if shown.wellFormed = true then append (.interaction shown) else _) s (.done :: as) = _
  rw [if_pos hshown, play_append happend]

/-- The preview of a round: the plane has dropped the one before it. -/
theorem lone_expired (n : ℕ) : ((lone n).use.expire (30000 * n)).confirmations = [] := by
  cases n with
  | zero => rfl
  | succ n => simp [ControlPlane.use, ControlPlane.expire, lone, issued]

theorem lone_issued (n : ℕ) :
    (((lone n).use.expire (30000 * n)).issue (issued (n + 1)) "epoch").release = lone (n + 1) := by
  cases n with
  | zero => rfl
  | succ n =>
    simp [ControlPlane.use, ControlPlane.expire, ControlPlane.issue, ControlPlane.release, lone, issued]

/-- The plane of the router, as it is after so many rounds. -/
def laid (s : State) (n : ℕ) : State :=
  { s with planes := fun p => if p = 0 then lone n else s.planes p, journal := recorded n }

/-- The answers that the request of a preview gets. -/
def requesting (n : ℕ) : List Answer :=
  [.time (30000 * n), .text (name (n + 1)), .text "e1", .time 0, .done]

theorem play_issue {s : State} {as : List Answer} (n : ℕ) (hplane : s.planes 0 = (lone n).use)
    (hjournal : s.journal = recorded n) :
    play (issuePreview 0 asked "epoch") s (requesting n ++ as) =
      some (.ok (issued (n + 1)), ({ s.modify 0 (.expire (30000 * n)) with
        journal := recorded (n + 1) } : State).modify 0 (.issue (issued (n + 1)) "epoch"), as) := by
  have hdenial : denial (lone n).use asked true = none := by
    cases n with
    | zero => rfl
    | succ n => rfl
  have hlive : ¬ 128 ≤ ((lone n).use.expire (30000 * n)).confirmations.length := by
    rw [lone_expired]
    decide
  have hissued : (⟨name (n + 1), asked, 30000 * n + 30000⟩ : Confirmation) = issued (n + 1) := by
    unfold issued
    congr 1
  have hexpired : (s.modify 0 (.expire (30000 * n))).journal = recorded n := hjournal
  simp only [issuePreview, onException, clock, uuid4, requesting, List.cons_append, List.nil_append, play_bind,
    play_read, play_ask, play_write, Option.bind_some, after_ok, State.modify_self, hplane, hdenial, hlive, Option.isSome_none,
    if_false, Bool.false_eq_true, play_pure, hissued, play_catching]
  show ((play (observeInteraction 0 asked .preview [("capability_id", .str "act")]) _ _).bind _).bind _ = _
  rw [play_observe n hexpired]
  simp

/-- A preview is issued, and the one before it dropped. -/
theorem play_request {s : State} {as : List Answer} (n : ℕ) (hplane : s.planes 0 = lone n)
    (hjournal : s.journal = recorded n) :
    play (requestConfirmation 0 asked (some "epoch")) s (requesting n ++ as) =
      some (.ok (issued (n + 1)), laid s (n + 1), as) := by
  have hasked : snapshotCommand asked = pure () := rfl
  have hused : (s.modify 0 .use).planes 0 = (lone n).use := by
    rw [State.modify_self, hplane]
  have hlaid : (({ (s.modify 0 .use).modify 0 (.expire (30000 * n)) with journal := recorded (n + 1) } : State).modify 0
      (.issue (issued (n + 1)) "epoch")).modify 0 .release = laid s (n + 1) := by
    unfold laid State.modify
    congr 1
    funext p
    by_cases hp : p = 0
    · simp only [hp, if_true, hplane]
      exact lone_issued n
    · simp only [hp, if_false]
  have hkey : Option.filter (fun k => Decidable.decide (k ≠ "")) (some "epoch") = some "epoch" := by decide
  simp only [requestConfirmation, hasked, hkey, catalogUse, play_bind, play_pure, play_write, play_lastly,
    Option.bind_some, after_ok]
  rw [play_issue n hused hjournal]
  simp [hlaid]

/-- The router of `pile n`, in a call of a later activation. -/
def occupied (n : ℕ) : Router := ⟨0, [doing], true, name (n + 1) :: used n, piled n, true⟩

/-- A preview of `handle`, where the table is not full. -/
theorem play_preview {s : State} {n : ℕ} (hn : n < 128) (hplane : s.planes 0 = lone n)
    (hjournal : s.journal = recorded n) (hrouter : s.routers 0 = occupied n) :
    play (preview ascii 0 0 doing asked (listeningAs (n + 1)) true false) s
      (requesting n ++ [Answer.voiceState (listeningAs (n + 1)), .done]) =
      some (.ok { status := "preview", code := "confirmation.required", token := some (name (n + 1)),
                  prompt := some "Correction preview: Do it?" },
        (laid s (n + 1)).modifyRouter 0 (.keep (issued (n + 1)) "epoch"), []) := by
  have hroom : ¬ 128 ≤ ((s.routers 0).previews).length := by
    rw [hrouter]
    simp [occupied, piled_length]
    omega
  have hbinding : binding ascii (listeningAs (n + 1)) = pure "epoch" := rfl
  have hprompt : "Correction preview: " ++ doing.label ++ "?" = "Correction preview: Do it?" := by decide
  simp only [preview, play_bind, play_read, Option.bind_some, after_ok, hroom, if_false, hbinding, play_pure,
    play_catching, play_map]
  rw [play_request n hplane hjournal]
  simp [play_speak, issued, hprompt]

theorem play_full {s : State} {n : ℕ} {as : List Answer} (hn : 128 ≤ n) (hrouter : s.routers 0 = occupied n) :
    play (preview ascii 0 0 doing asked (listeningAs (n + 1)) true false) s as = some (.ok limited, s, as) := by
  have hfull : 128 ≤ ((s.routers 0).previews).length := by
    rw [hrouter]
    simpa [occupied, piled_length] using hn
  simp only [preview, play_bind, play_read, Option.bind_some, after_ok, hfull, if_true, play_pure]
  rfl

/-- The state of round `n`, when the preview is decided on. -/
def started (n : ℕ) : State := (pile n).modifyRouter 0 fun _ => occupied n

theorem play_activate {n : ℕ} (hn : n < 4096) {as : List Answer} :
    play (activate 0 (listeningAs (n + 1))) ((pile n).modifyRouter 0 (.occupy true)) as =
      some (.ok none, started n, as) := by
  have hfresh : (((pile n).modifyRouter 0 (.occupy true)).routers 0).activations.contains
      (listeningAs (n + 1)).activationId = false := by
    simpa [pile, Router.occupy, listeningAs] using used_fresh (Nat.lt_succ_self n)
  have hroom : ¬ 4096 ≤ (((pile n).modifyRouter 0 (.occupy true)).routers 0).activations.length := by
    simp [pile, Router.occupy, used_length]
    omega
  have hstarted : ((pile n).modifyRouter 0 (.occupy true)).modifyRouter 0
      (.activate (listeningAs (n + 1)).activationId) = started n := by
    unfold started State.modifyRouter
    congr 1
    funext r
    by_cases hr : r = 0
    · simp [hr, pile, Router.occupy, Router.activate, occupied, listeningAs]
    · simp [hr]
  simp only [activate, play_bind, play_read, Option.bind_some, after_ok, hfresh, hroom, if_false, Bool.false_eq_true,
    play_write, hstarted, play_pure]

/-- What `handle` does up to there. -/
theorem play_handleBody {n : ℕ} (hn : n < 4096) {as : List Answer} :
    play (handleBody ascii 0 (some "do it") (some true)) ((pile n).modifyRouter 0 (.occupy true))
        (prologue (n + 1) ++ as) =
      play (preview ascii 0 0 doing asked (listeningAs (n + 1)) true false) (started n) as := by
  have hcandidates : play (candidates ascii 0 "do it") (started n)
      (.voiceState (listeningAs (n + 1)) :: .text "c1" :: .text "k1" :: .time 0 :: .done :: as) = _ :=
    play_candidates rfl
  have hassess : play (assess 0 asked) (started n) (.done :: as) = _ := play_assess n rfl
  have hplane : ((started n).routers 0).plane = 0 := rfl
  have hclear : unclear [⟨doing, 1, 1⟩] = false := by decide +kernel
  have hmatch : matchesAlias ascii "do it" doing = true := by decide +kernel
  simp only [handleBody, prologue, List.cons_append, List.nil_append, play_bind, play_voiceState, Option.bind_some,
    after_ok, available_listening, play_activate hn, hcandidates]
  simp [play_command, hclear, decide, hplane, hassess, hmatch]

/-- What `handle` does with the reply. -/
theorem play_handle {n : ℕ} (hn : n < 4096) {as rest : List Answer} {v : VoiceReply} {s' : State}
    (h : play (preview ascii 0 0 doing asked (listeningAs (n + 1)) true false) (started n) as =
      some (.ok v, s', rest)) :
    play (callBody ascii (.handle 0 (some "do it") (some true))) (pile n) (prologue (n + 1) ++ as) =
      some (.ok (.reply v), s'.modifyRouter 0 (.occupy false), rest) := by
  have hidle : ((pile n).routers 0).busy = false := rfl
  simp only [callBody, handle, exclusively, onValueError, play_map, play_bind, play_read, play_write, play_lastly,
    play_catching, Option.bind_some, after_ok, hidle, if_false, Bool.false_eq_true]
  rw [play_handleBody hn, h]
  simp

theorem pile_empty (r : ℕ) : ((pile 0).routers r).previews = [] := by
  by_cases hr : r = 0
  · rw [hr]
    rfl
  · simp [pile, hr]

/-- **A round**: what the plane held expires, and the router keeps one preview more. -/
theorem play_round {n : ℕ} (hn : n < 128) :
    ∃ v, play (callBody ascii (.handle 0 (some "do it") (some true))) (pile n) (answers n) =
      some (.ok v, pile (n + 1), []) := by
  have hpreview := play_preview (s := started n) hn rfl rfl rfl
  have hnext : ((laid (started n) (n + 1)).modifyRouter 0 (.keep (issued (n + 1)) "epoch")).modifyRouter 0
      (.occupy false) = pile (n + 1) := by
    have hkept := piled_fresh (Nat.lt_succ_self n)
    unfold started laid State.modifyRouter pile
    congr 1
    · funext p
      by_cases hp : p = 0
      · simp [hp]
      · simp [hp]
    · funext r
      by_cases hr : r = 0
      · subst hr
        simp [occupied, Router.occupy, Router.keep, used, piled, issued] at hkept ⊢
        exact hkept
      · simp [hr]
  have hhandle := play_handle (hn.trans (by decide)) hpreview
  rw [hnext] at hhandle
  exact ⟨_, hhandle⟩

/-- After 128 rounds the router refuses. Its plane holds one preview. -/
theorem reaches_limit :
    ∃ c i older a, (voiceMachine ascii fun _ _ _ => true).Reachable (pile 0) c ∧
      c.w.log = ⟨i, .ret (.ok (.reply limited)), c.w.st⟩ :: older ∧
      a ∈ older ∧ a.frame = i ∧ a.act = .invoke (.handle 0 (some "do it") (some true)) ∧
      (c.w.st.planes (c.w.st.routers 0).plane).confirmations.length = 1 := by
  have hround : ∀ n ≤ 128, ∃ c, (voiceMachine ascii fun _ _ _ => true).Reachable (pile 0) c ∧ c.stack = [] ∧
      c.w.st = pile n := by
    intro n hn
    induction n with
    | zero => exact ⟨_, .start _, rfl, rfl⟩
    | succ n ih =>
      obtain ⟨c, hc, hidle, hst⟩ := ih (by omega)
      obtain ⟨v, hplay⟩ := play_round hn
      rw [← hst] at hplay
      obtain ⟨c', i, older, hc', hidle', hst', -⟩ :=
        hc.call (fun _ _ _ => rfl) hidle (.handle 0 (some "do it") (some true)) rfl hplay
      exact ⟨c', hc', hidle', hst'⟩
  obtain ⟨c, hc, hidle, hst⟩ := hround 128 le_rfl
  have hrefused : play (preview ascii 0 0 doing asked (listeningAs (128 + 1)) true false) (started 128) [] =
      some (.ok limited, started 128, []) := play_full le_rfl rfl
  have hfull := play_handle (by decide) hrefused
  rw [← hst] at hfull
  obtain ⟨c', i, older, hc', -, hst', hlog, hcalled⟩ :=
    hc.call (fun _ _ _ => rfl) hidle (.handle 0 (some "do it") (some true)) rfl hfull
  refine ⟨c', i, older, _, hc', ?_, hcalled, rfl, rfl, ?_⟩
  · rw [hst']
    exact hlog
  · rw [hst']
    rfl

/-! ## The limit -/

/-- A preview was returned by `handle` of router `r`, and has been in its table at every entry since. -/
def Held (r : ℕ) (token : String) (log : List VEntry) : Prop :=
  ∃ later issued earlier, log = later ++ issued :: earlier ∧ Issues r token issued earlier ∧
    ∀ e ∈ issued :: later, token ∈ kept e.st r

/-- What a router keeps, it has held. -/
theorem Tabled.held_since {log : List VEntry} (h : Throughout Follows log) (ht : token ∈ lastKept log r) :
    Held r token log := by
  induction log with
  | nil => cases ht
  | cons e older ih =>
    obtain ⟨hfollows, hold⟩ := h
    rcases hfollows.gained r token ht with hbefore | hissues
    · -- it was there before this entry
      obtain ⟨later, issued, earlier, hlog, hissues, hall⟩ := ih hold hbefore
      refine ⟨e :: later, issued, earlier, by rw [hlog, List.cons_append], hissues, fun x hx => ?_⟩
      rcases List.mem_cons.1 hx with rfl | hx
      · exact hall x List.mem_cons_self
      rcases List.mem_cons.1 hx with rfl | hx
      · exact ht
      · exact hall x (List.mem_cons_of_mem _ hx)
    · refine ⟨[], e, older, rfl, hissues, fun x hx => ?_⟩
      rw [List.mem_singleton.1 hx]
      exact ht

/-- A reachable log begins with empty tables. -/
theorem tabled_start {s : State} (h0 : ∀ r, (s.routers r).previews = []) :
    Tabled (Machine.start s : Config State Op Answer Exc Call Return).w := by
  have hempty : ∀ r, kept s r = [] := by
    intro r
    unfold kept
    rw [h0 r, List.map_nil]
  refine ⟨trivial, fun r => ?_, fun r token ht => ?_⟩
  · exact (hempty r).symm ▸ List.nodup_nil
  · have hnone : token ∈ kept s r := ht
    rw [hempty r] at hnone
    cases hnone

/-- **A router refuses for capacity only where its own table is full.** In every run of planes and routers, from routers
that keep nothing, a call of router `r` that returns `confirmation.limit` leaves a table of at least 128 previews, each
with a token of its own. Each was returned by an earlier `handle` of the router, and has been in the table ever
since. -/
theorem limit_full (t : Text) (enter : VWorld → List (ℕ × Op) → Call → Bool) {s : State}
    (h0 : ∀ r, (s.routers r).previews = []) {c : Config State Op Answer Exc Call Return}
    (hc : (voiceMachine t enter).Reachable s c) {newer older : List VEntry} {e a : VEntry}
    (hlog : c.w.log = newer ++ e :: older) (hret : e.act = .ret (.ok (.reply limited))) (ha : a ∈ older)
    (hframe : a.frame = e.frame) {call : Call} (hcall : a.act = .invoke call) (hr : call.router = some r) :
    128 ≤ (kept e.st r).length ∧ (kept e.st r).Nodup ∧ ∀ token ∈ kept e.st r, Held r token (e :: older) := by
  have hfull := Contract.returns tableContract_full (tabled_start h0) hc hlog _ hret a ha hframe call hcall rfl r hr
  have htabled := (Contract.sound tableContract_kept (tabled_start h0) hc).log
  rw [hlog] at htabled
  have hfollows : Throughout Follows (e :: older) := htabled.suffix
  exact ⟨hfull, hfollows.1.distinct r, fun token ht => Tabled.held_since hfollows ht⟩

theorem limit_full_run :
    ∃ c e older, (voiceMachine ascii fun _ _ _ => true).Reachable (pile 0) c ∧ c.w.log = e :: older ∧
      e.act = .ret (.ok (.reply limited)) ∧ 128 ≤ (kept e.st 0).length ∧ (kept e.st 0).Nodup ∧
      ∀ token ∈ kept e.st 0, Held 0 token (e :: older) := by
  obtain ⟨c, i, older, a, hc, hlog, ha, hframe, hcall, -⟩ := reaches_limit
  have hlast : c.w.log = [] ++ ⟨i, .ret (.ok (.reply limited)), c.w.st⟩ :: older := hlog
  refine ⟨c, _, older, hc, hlog, rfl, ?_⟩
  exact limit_full ascii (fun _ _ _ => true) pile_empty hc hlast rfl ha hframe hcall rfl

/-- **The plane may hold fewer.** A router counts the previews that its plane has let expire. -/
theorem limit_outlives :
    ¬ ∀ (t : Text) (enter : VWorld → List (ℕ × Op) → Call → Bool) (s : State), (∀ r, (s.routers r).previews = []) →
      ∀ c, (voiceMachine t enter).Reachable s c → ∀ newer e older, c.w.log = newer ++ e :: older →
      e.act = .ret (.ok (.reply limited)) → ∀ a ∈ older, a.frame = e.frame → ∀ call, a.act = .invoke call →
      ∀ r, call.router = some r → 128 ≤ (e.st.planes (e.st.routers r).plane).confirmations.length := by
  intro h
  obtain ⟨c, i, older, a, hc, hlog, ha, hframe, hcall, hone⟩ := reaches_limit
  have hmany := h ascii (fun _ _ _ => true) (pile 0) pile_empty c hc [] _ older hlog rfl a ha hframe _ hcall 0 rfl
  dsimp only at hmany
  omega

end Voice

end Arhugula
