import Arhugula.Proof.PlaneCalm
import Arhugula.Spec.Router

/-!
# The quiet parts of a router

Between its calls of a plane a router calls its owner, adds to its activations, and no more. An assertion that survives
these (`Attends`) is kept by every helper function of `router.py`.
-/

namespace Arhugula

namespace Voice

open Reentrant Vm Plane

variable {M V : Type} {m : Machine State Op Answer Exc M V} (K : Contract m) {t : Text}

/-- **An assertion that the quiet steps of router `r` keep**, whatever plane it calls. -/
structure Attends (ctx : List (ℕ × Op)) (i r : ℕ) (L : World State Op Answer Exc M V → Prop) : Prop where
  steady : ∀ q, Steady K ctx i q L
  activated : ∀ w id, L w → L (w.put (w.st.modifyRouter r (.activate id)))

variable {K} {ctx : List (ℕ × Op)} {i p r : ℕ} {L : World State Op Answer Exc M V → Prop} {intent : Command}

theorem proposed_actions {actions : List Action} :
    ∀ (items : List (Option Proposal)) (seen : List String) {l : List Candidate},
      proposed actions items seen = some l → ∀ c ∈ l, c.action ∈ actions := by
  intro items
  induction items with
  | nil =>
    intro seen l hl c hc
    cases hl
    cases hc
  | cons item rest ih =>
    intro seen l hl c hc
    cases item with
    | none => cases hl
    | some item =>
      unfold proposed at hl
      split at hl
      · cases hl
      rename_i action hfind
      split at hl
      · cases hl
      obtain ⟨l', hl', rfl⟩ := Option.map_eq_some_iff.1 hl
      rcases List.mem_cons.1 hc with rfl | hc
      · exact List.mem_of_find?_eq_some hfind
      · exact ih _ hl' c hc

theorem rank_mem {l : List Candidate} {c : Candidate} : c ∈ rank l ↔ c ∈ l :=
  List.mem_insertionSort _

theorem keeps_onValueError {α : Type} {P : α → Prop} {body h : VM α} (hp : Keeps K ctx i L body P)
    (hh : Keeps K ctx i L h P) : Keeps K ctx i L (onValueError body h) P := by
  refine hp.catching fun e => ?_
  cases e <;> first | exact hh | exact keeps_fail

namespace Attends

variable (h : Attends K ctx i r L)

include h

theorem askText (op : VoiceOp) : Keeps K ctx i L (Voice.askText r op) (fun _ => True) := by
  refine (h.steady 0).answer rfl fun a => ?_
  cases a with
  | raised e => exact keeps_throw
  | _ => exact keeps_pure trivial

theorem time : Keeps K ctx i L (Voice.time r) (fun _ => True) := by
  refine (h.steady 0).answer rfl fun a => ?_
  cases a with
  | time now => exact keeps_pure trivial
  | _ => exact keeps_throw

theorem voiceState : Keeps K ctx i L (Vm.voiceState r) (fun _ => True) := (h.steady 0).voiceState r

/-- A command is of its action. -/
theorem command (action : Action) (state : VoiceState) (version : Option ℤ) :
    Keeps K ctx i L (Voice.command r action state version)
      (fun c => action.capabilityId = c.capabilityId ∧ action.arguments = c.arguments) := by
  refine (h.askText _).bind fun id _ => (h.askText _).bind fun correlation _ => h.time.bind fun now _ => ?_
  dsimp only
  split
  · exact .ite (fun _ => keeps_pure ⟨rfl, rfl⟩) fun _ => keeps_throw
  · exact keeps_throw

/-- **Every candidate is an action of the router**, whatever the proposal callback returns. -/
theorem candidates {actions : List Action} (hactions : ∀ w, L w → (w.st.routers r).actions = actions) (text : String) :
    Keeps K ctx i L (Voice.candidates t r text) (fun found => ∀ c ∈ found, c.action ∈ actions) := by
  have hread : Keeps K ctx i L (Prog.read fun s => s.routers r) fun router => router.actions = actions :=
    keeps_read hactions
  refine hread.bind fun router hrouter => ?_
  rw [← hrouter]
  refine .ite (fun _ => keeps_pure fun c hc => ?_) fun _ => .ite (fun _ => ?_) fun _ => ?_
  · obtain ⟨a, ha, rfl⟩ := List.mem_map.1 hc
    exact (List.mem_filter.1 ha).1
  · refine keeps_onException ?_ (keeps_pure fun c hc => by cases hc)
    refine (h.steady 0).answer rfl fun a => ?_
    cases a with
    | proposals values =>
      refine .ite (fun _ => keeps_throw) fun _ => ?_
      cases hl : proposed router.actions values [] with
      | none => exact keeps_throw
      | some l => exact keeps_pure fun c hc => proposed_actions values [] hl c (rank_mem.1 hc)
    | _ => exact keeps_throw
  · refine keeps_pure fun c hc => ?_
    obtain ⟨a, ha, rfl⟩ := List.mem_map.1 (rank_mem.1 hc)
    exact ha

theorem activate (state : VoiceState) : Keeps K ctx i L (Voice.activate r state) (fun _ => True) := by
  refine (keeps_read (P := fun _ => True) fun _ _ => trivial).bind fun router _ =>
    .ite (fun _ => keeps_pure trivial) fun _ => .ite (fun _ => keeps_pure trivial) fun _ => ?_
  have hwrite : Keeps K ctx i L (Prog.write fun s => s.modifyRouter r (.activate state.activationId)) fun _ => True :=
    keeps_write fun w hw => h.activated w _ hw
  exact hwrite.bind fun _ _ => keeps_pure trivial

theorem speak (text : String) (state : VoiceState) : Keeps K ctx i L (Voice.speak r text state) (fun _ => True) := by
  have hcurrent : Keeps K ctx i L (current r state) fun _ => True := (h.steady 0).current r state
  refine hcurrent.bind fun _ _ => .ite (fun _ => ?_) fun _ => keeps_pure trivial
  refine (h.steady 0).answer rfl fun a => ?_
  cases a with
  | raised e => exact .ite (fun _ => keeps_pure trivial) fun _ => keeps_throw
  | _ => exact keeps_pure trivial

theorem prompt (phase : Phase) (text : String) (details : Mapping Json) (state : VoiceState) :
    Keeps K ctx i L (Voice.prompt r p intent phase text details state) (fun _ => True) := by
  refine Keeps.bind (P := fun _ => True) (keeps_onException
    (((h.steady p).observeInteraction intent phase details).bind fun _ _ => keeps_pure trivial)
    (keeps_pure trivial)) fun observed _ => ?_
  exact .ite (fun _ => h.speak _ _) fun _ => keeps_pure trivial

omit h in
theorem binding (state : VoiceState) : Keeps K ctx i L (Voice.binding t state) (fun _ => True) := by
  unfold Voice.binding
  split
  · exact keeps_pure trivial
  · exact keeps_throw

theorem clarify (actions : List Action) (state : VoiceState) :
    Keeps K ctx i L (Voice.clarify r p actions intent state) (fun _ => True) := by
  refine (h.prompt _ _ _ _).bind fun failure _ => ?_
  cases failure <;> exact keeps_pure trivial

end Attends

end Voice

end Arhugula
