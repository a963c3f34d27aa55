import Arhugula.Reentrant.Keeps
import Arhugula.Spec.Plane

/-!
# The quiet parts of the control plane

A plane reads the history once and calls its executor once; it changes its catalog,
its token table and its count of users in one place each. Everything else it does is
quiet: it calls clocks, identifier sources, guards and voice owners, adds to `_seen`,
and appends to the journal. An assertion that survives these (`Steady`) is kept by
every helper function of `core.py`.
-/

namespace Arhugula

namespace Plane

open Reentrant Vm

/-- Neither a call of an executor nor a read of the history. -/
def quiet : Op → Bool
  | .execute .. | .read => false
  | _ => true

variable {M V : Type} {m : Machine State Op Answer Exc M V} (K : Contract m)

/-- **An assertion that the quiet steps of plane `q` keep.** -/
structure Steady (ctx : List (ℕ × Op)) (i q : ℕ) (L : World State Op Answer Exc M V → Prop) :
    Prop where
  ask : ∀ op, quiet op → Survives K ctx i L op
  seen : ∀ w l, L w → L (w.put (w.st.modify q (.see l)))
  journal : ∀ w r j, L w → w.st.journal.append r = some j → L (w.put { w.st with journal := j })

variable {K} {ctx : List (ℕ × Op)} {i q : ℕ} {L : World State Op Answer Exc M V → Prop}

/-- A quiet callback, or its answer. -/
def silent : Act Op Answer Exc M V → Bool
  | .call op | .reply op _ => quiet op
  | _ => false

/-- **A contract that does not see the quiet steps**, of whatever plane. -/
structure Calm (K : Contract m) : Prop where
  narrow : ∀ f ctx a b, K.Rel (f :: ctx) a b → K.Rel ctx a b
  push : ∀ ctx w i x, silent x → K.Inv w → K.Inv (w.push i x) ∧ K.Rel ctx w (w.push i x)
  seen : ∀ ctx w q l, K.Inv w →
    K.Inv (w.put (w.st.modify q (.see l))) ∧
      K.Rel ctx w (w.put (w.st.modify q (.see l)))
  journal : ∀ ctx w r j, K.Inv w → w.st.journal.append r = some j →
    K.Inv (w.put { w.st with journal := j }) ∧ K.Rel ctx w (w.put { w.st with journal := j })

/-- The activation that began in `w₀` has kept the contract so far, and `E` holds. -/
structure Along (K : Contract m) (ctx : List (ℕ × Op)) (w₀ : World State Op Answer Exc M V)
    (E : World State Op Answer Exc M V → Prop) (w : World State Op Answer Exc M V) : Prop where
  inv : K.Inv w
  rel : K.Rel ctx w₀ w
  here : E w

/-- `E` is true for as long as activation `i` does nothing but quiet steps. -/
def Stable (K : Contract m) (ctx : List (ℕ × Op)) (i : ℕ)
    (E : World State Op Answer Exc M V → Prop) : Prop :=
  ∀ op a b, K.Rel ((i, op) :: ctx) a b → E a → E b

theorem Along.step {w₀ w w' : World State Op Answer Exc M V}
    {E E' : World State Op Answer Exc M V → Prop} (h : Along K ctx w₀ E w) (hinv : K.Inv w')
    (hrel : K.Rel ctx w w') (hE : E' w') : Along K ctx w₀ E' w' :=
  ⟨hinv, K.trans h.rel hrel, hE⟩

theorem Along.mono {w₀ w : World State Op Answer Exc M V}
    {E E' : World State Op Answer Exc M V → Prop} (h : Along K ctx w₀ E w) (hE : E w → E' w) :
    Along K ctx w₀ E' w :=
  ⟨h.inv, h.rel, hE h.here⟩

/-- A stable assertion survives the quiet steps. -/
theorem Calm.steady (hK : Calm K) {w₀ : World State Op Answer Exc M V}
    {E : World State Op Answer Exc M V → Prop} (hE : Stable K ctx i E) :
    Steady K ctx i q (Along K ctx w₀ E) where
  ask := by
    intro op hop w hw
    obtain ⟨hinv, hrel⟩ := hK.push ((i, op) :: ctx) w i (.call op) hop hw.inv
    refine ⟨hinv, fun w' hinv' _ hrel' a _ => ?_⟩
    obtain ⟨hinv'', hrel''⟩ := hK.push ((i, op) :: ctx) w' i (.reply op a) hop hinv'
    have hall := K.trans hrel (K.trans hrel' hrel'')
    exact hw.step hinv'' (hK.narrow _ _ _ _ hall) (hE op _ _ hall hw.here)
  seen := by
    intro w l hw
    obtain ⟨hinv, hrel⟩ := hK.seen ((i, .uuid4) :: ctx) w q l hw.inv
    exact hw.step hinv (hK.narrow _ _ _ _ hrel) (hE .uuid4 _ _ hrel hw.here)
  journal := by
    intro w r j hw hj
    obtain ⟨hinv, hrel⟩ := hK.journal ((i, .uuid4) :: ctx) w r j hw.inv hj
    exact hw.step hinv (hK.narrow _ _ _ _ hrel) (hE .uuid4 _ _ hrel hw.here)

/-- An append that succeeds has stored its record. -/
theorem Calm.append_stored (hK : Calm K) {w₀ w : World State Op Answer Exc M V}
    {E : World State Op Answer Exc M V → Prop} (hE : Stable K ctx i E) (r : Record)
    (hw : Along K ctx w₀ E w) :
    Holds K ctx i (append r)
      (fun x w' => Along K ctx w₀ E w' ∧ (x = .ok () → r ∈ w'.st.journal ∧
        ∃ b ∈ w'.log, b.frame = i ∧ b.act = .reply (.append r) .done ∧
          (b.st.journal.append r).isSome)) w := by
  have hsteady : Steady K ctx i 0 (Along K ctx w₀ E) := hK.steady hE
  obtain ⟨hinv, hnext⟩ := hsteady.ask (.append r) rfl w hw
  unfold append
  rw [holds_bind, holds_ask]
  refine ⟨hinv, fun w₁ hinv₁ hgrow hrel a ha => ?_⟩
  have h₁ := hnext w₁ hinv₁ hgrow hrel a ha
  cases a with
  | done =>
    dsimp only
    rw [holds_bind, holds_read]
    dsimp only
    cases hj : (w₁.push i (.reply (.append r) .done)).st.journal.append r with
    | none => exact ⟨h₁, fun hx => by cases hx⟩
    | some j =>
      refine ⟨hsteady.journal _ _ _ h₁ hj, fun _ => ⟨(Journal.append_mem hj).2, _,
        List.mem_cons_self, rfl, rfl, ?_⟩⟩
      rw [World.push_st] at hj
      rw [hj]; rfl
  | _ => exact ⟨h₁, fun hx => by cases hx⟩

/-- A callback whose answer is read by a `match`. -/
theorem Steady.answer {α : Type} {P : α → Prop} (h : Steady K ctx i q L) {op : Op} (hop : quiet op)
    {f : Answer → VM α} (hf : ∀ a, Keeps K ctx i L (f a) P) :
    Keeps K ctx i L (Prog.ask op >>= f) P :=
  (keeps_ask (h.ask op hop)).bind fun a _ => hf a

theorem keeps_onException {α : Type} {P : α → Prop} {p h : VM α} (hp : Keeps K ctx i L p P)
    (hh : Keeps K ctx i L h P) : Keeps K ctx i L (onException p h) P :=
  hp.catching fun _ => .ite (fun _ => hh) fun _ => keeps_fail

/-- A body under `catalogUse` runs with one user more. -/
theorem holds_catalogUse {α : Type} {p : ℕ} {body : VM α} {w : World State Op Answer Exc M V}
    {Q : Except Exc α → World State Op Answer Exc M V → Prop} :
    Holds K ctx i (catalogUse p body) Q w ↔
      Holds K ctx i body
        (fun r w' => Q r
          (w'.put (w'.st.modify p .release)))
        (w.put (w.st.modify p .use)) := by
  unfold catalogUse
  rw [holds_bind, holds_write]
  dsimp only
  rw [holds_lastly]
  rfl

theorem keeps_snapshotCommand (command : Command) :
    Keeps K ctx i L (snapshotCommand command) (fun _ => command.wellFormed) :=
  .ite (fun h => keeps_pure h) fun _ => keeps_throw

theorem keeps_assess (command : Command) : Keeps K ctx i L (assess q command) (fun _ => True) :=
  (keeps_snapshotCommand command).bind fun _ _ => keeps_read fun _ _ => trivial

namespace Steady

variable (h : Steady K ctx i q L)

include h

theorem clock : Keeps K ctx i L (Vm.clock q) (fun _ => True) := by
  refine h.answer rfl fun a => ?_
  cases a with
  | time t => exact keeps_pure trivial
  | _ => exact keeps_throw

theorem identifiers : Keeps K ctx i L (Vm.identifiers q) (fun _ => True) := by
  refine h.answer rfl fun a => ?_
  cases a with
  | text s => exact keeps_pure trivial
  | _ => exact keeps_throw

theorem uuid4 : Keeps K ctx i L Vm.uuid4 (fun _ => True) := by
  refine h.answer rfl fun a => ?_
  cases a with
  | text s => exact keeps_pure trivial
  | _ => exact keeps_throw

theorem append (r : Record) : Keeps K ctx i L (Vm.append r) (fun _ => True) := by
  refine h.answer rfl fun a => ?_
  cases a with
  | done =>
    intro w hw
    rw [holds_bind, holds_read]
    dsimp only
    cases hj : w.st.journal.append r with
    | none => exact ⟨hw, fun _ hb => by cases hb⟩
    | some j => exact ⟨h.journal w r j hw hj, fun _ _ => trivial⟩
  | _ => exact keeps_throw

theorem voiceState (r : ℕ) : Keeps K ctx i L (Vm.voiceState r) (fun _ => True) := by
  refine h.answer rfl fun a => ?_
  cases a with
  | voiceState s => exact .ite (fun _ => keeps_throw) fun _ => keeps_pure trivial
  | _ => exact keeps_throw

theorem current (r : ℕ) (s : VoiceState) : Keeps K ctx i L (Vm.current r s) (fun _ => True) :=
  keeps_onException ((h.voiceState r).bind fun _ _ => keeps_pure trivial) (keeps_pure trivial)

theorem guardRun (g : Guard) : Keeps K ctx i L (g.run q) (fun _ => True) := by
  cases g with
  | callback g =>
    refine h.answer rfl fun a => ?_
    cases a with
    | raised e => exact keeps_throw
    | _ => exact keeps_pure trivial
  | voice r s => exact h.current r s

theorem guardDenial (g : Option Guard) : Keeps K ctx i L (Plane.guardDenial q g) (fun _ => True) := by
  cases g with
  | none => exact keeps_pure trivial
  | some g =>
    refine keeps_onException ((h.guardRun g).bind fun _ _ => ?_) (keeps_pure trivial)
    exact .ite (fun _ => keeps_pure trivial) fun _ => keeps_pure trivial

/-- A result is of its command and has the status it was asked for. -/
theorem result (command : Command) (status : Status) (output : Mapping Json) (err : Option Error) :
    Keeps K ctx i L (Plane.result q command status output err)
      (fun r => r.commandId = command.commandId ∧ r.status = status) :=
  h.identifiers.bind fun _ _ => .ite (fun _ => keeps_pure ⟨rfl, rfl⟩) fun _ => keeps_throw

/-- An event is of its command, and starts it or finishes it with the result it was given. -/
theorem event (command : Command) (res : Option Result) (start : ℤ) :
    Keeps K ctx i L (Plane.event q command res start)
      (fun e => e.commandId = command.commandId ∧ e.status = res.map Result.status ∧
        e.eventType = if res.isSome then .finished else .started) :=
  h.clock.bind fun _ _ => h.identifiers.bind fun _ _ =>
    (keeps_read (P := fun _ => True) fun _ _ => trivial).bind fun _ _ =>
      .ite (fun _ => keeps_pure ⟨rfl, rfl, rfl⟩) fun _ => keeps_throw

theorem addSeen (id : String) : Keeps K ctx i L (Plane.addSeen q id) (fun _ => True) :=
  keeps_write fun w hw => h.seen w [id] hw

/-- The result comes back, or one that says that the completion was not stored. -/
theorem finish (command : Command) (start : ℤ) (ran : Bool) (res : Result) :
    Keeps K ctx i L (Plane.finish q command start ran res) (fun r => r = res ∨
      r.commandId = command.commandId ∧ r.status = if ran then .uncertain else res.status) :=
  keeps_onException
    ((h.event command (some res) start).bind fun e _ => (h.append (.event e)).bind fun _ _ =>
      keeps_pure (.inl rfl))
    ((h.result command _ [] _).weaken fun _ hr => .inr hr)

theorem observeInteraction (command : Command) (phase : Phase) (details : Mapping Json) :
    Keeps K ctx i L (Plane.observeInteraction q command phase details) (fun _ => True) := by
  refine Keeps.bind (P := fun _ => True) (.ite (fun _ => keeps_pure trivial) fun _ => keeps_throw)
    fun _ _ => h.identifiers.bind fun _ _ => h.clock.bind fun _ _ => ?_
  exact .ite (fun _ => h.append _) fun _ => keeps_throw

/-- A duplicate is always denied. -/
theorem authorize (command : Command) (duplicate pending confirmed : Bool) (g : Option Guard) :
    Keeps K ctx i L (Plane.authorize q command duplicate pending confirmed g)
      (fun d => d = none → duplicate = false) := by
  refine .ite (fun _ => keeps_pure fun h => by cases h) fun hdup => ?_
  rw [Bool.not_eq_true] at hdup
  refine .ite (fun _ => keeps_pure fun h => by cases h) fun _ => ?_
  refine (h.guardDenial g).bind fun c _ => ?_
  cases c with
  | some code => exact keeps_pure fun h => by cases h
  | none => exact keeps_read fun _ _ _ => hdup

theorem confirmationBlocked (command : Command) (code : Code) :
    Keeps K ctx i L (Plane.confirmationBlocked q command code)
      (fun r => r.commandId = command.commandId ∧ r.status = .blocked) := by
  refine (h.addSeen _).bind fun _ _ => (h.result command .blocked [] _).bind fun r hr => ?_
  refine keeps_onException ?_ (h.result command .blocked [] _)
  exact h.clock.bind fun _ _ => (h.event command (some r) _).bind fun e _ =>
    (h.append (.event e)).bind fun _ _ => keeps_pure hr

/-- A refusal or a cancellation. -/
theorem refuse (command : Command) (status : Status) (err : Option Error) (start : ℤ) :
    Keeps K ctx i L
      (do let res ← Plane.result q command status [] err
          Plane.finish q command start false res) (fun _ => True) :=
  (h.result command status [] err).bind fun res _ =>
    (h.finish command start false res).weaken fun _ _ => trivial

/-- From the intent on, the call of the executor is the one step that is not quiet. -/
theorem intend (command : Command) (start : ℤ) (g : Option Guard)
    (hexec : Survives K ctx i L (.execute q command)) :
    Keeps K ctx i L (Plane.intend q command start g) (fun _ => True) := by
  have hrun : Keeps K ctx i L (Plane.execute q command) (fun _ => True) := by
    refine keeps_onException ((keeps_ask hexec).bind fun a _ => ?_)
      ((h.result command _ _ _).weaken fun _ _ => trivial)
    cases a with
    | outcome o =>
      dsimp only
      split
      · exact keeps_throw
      · exact (h.result command _ _ _).weaken fun _ _ => trivial
      · exact h.identifiers.bind fun _ _ => keeps_throw
    | _ => exact keeps_throw
  refine Keeps.bind (P := fun _ => True) ?_ fun recorded _ => .ite (fun _ => ?_) fun _ => ?_
  · exact keeps_onException ((h.event command none start).bind fun e _ =>
      (h.append (.event e)).bind fun _ _ => keeps_pure trivial) (keeps_pure trivial)
  · refine (h.guardDenial g).bind fun d _ => ?_
    cases d with
    | some code => exact h.refuse command .blocked _ start
    | none =>
      exact hrun.bind fun res _ => (h.finish command start true res).weaken fun _ _ => trivial
  · exact (h.result command _ _ _).weaken fun _ _ => trivial

/-- **`_dispatch` keeps an assertion** that survives its read of the history, and its
execution, if it gets that far: it has not been canceled then, and not denied. -/
theorem dispatchBody {A : Prop} (command : Command) (canceled confirmed : Bool) (g : Option Guard)
    (hread : Survives K ctx i L .read)
    (hdenial : ∀ pending, Keeps K ctx i L (Plane.authorize q command false pending confirmed g)
      (fun d => d = none → A))
    (hexec : canceled = false → A → Survives K ctx i L (.execute q command)) :
    Keeps K ctx i L (Plane.dispatchBody q command canceled confirmed g) (fun _ => True) := by
  have hhistory : Keeps K ctx i L (readHistory q command) (fun _ => True) := by
    refine Keeps.bind (P := fun _ => True) ((keeps_ask hread).bind fun a _ => ?_) fun history _ =>
      Keeps.bind (keeps_write fun w hw => h.seen w _ hw) fun _ _ => keeps_pure trivial
    cases a with
    | done => exact keeps_read fun _ _ => trivial
    | _ => exact keeps_throw
  refine Keeps.bind (P := fun _ => True)
    (keeps_onException (hhistory.map fun _ _ => trivial) (keeps_pure trivial)) fun pending _ => ?_
  cases pending with
  | none => exact (h.result command _ _ _).weaken fun _ _ => trivial
  | some pending =>
    refine h.clock.bind fun start _ => ?_
    refine (keeps_read (P := fun _ => True) fun _ _ => trivial).bind fun duplicate _ => ?_
    refine (h.addSeen _).bind fun _ _ => ?_
    have hauth : Keeps K ctx i L (Plane.authorize q command duplicate pending confirmed g)
        (fun d => d = none → duplicate = false ∧ A) := by
      cases duplicate with
      | true =>
        exact (h.authorize command true pending confirmed g).weaken fun d hd hn =>
          absurd (hd hn) Bool.noConfusion
      | false => exact (hdenial pending).weaken fun d hd hn => ⟨rfl, hd hn⟩
    refine hauth.bind fun d hd => .ite (fun _ => h.refuse command .canceled _ start) fun hcan => ?_
    cases d with
    | some code => exact h.refuse command .blocked _ start
    | none =>
      obtain ⟨rfl, hA⟩ := hd rfl
      refine h.intend command start g (hexec ?_ hA)
      simpa using hcan

/-- The preview of a confirmation changes nothing but the table of previews. -/
theorem issuePreview (command : Command) (key : String)
    (htable : ∀ w f, (∀ c : ControlPlane, ∃ l, f c = { c with confirmations := l }) → L w →
      L (w.put (w.st.modify q f))) :
    Keeps K ctx i L (Plane.issuePreview q command key) (fun _ => True) := by
  refine (keeps_read (P := fun _ => True) fun _ _ => trivial).bind fun s _ => ?_
  refine .ite (fun _ => keeps_throw) fun _ => h.clock.bind fun now _ => ?_
  refine Keeps.bind (keeps_write fun w hw => htable w _ (fun c => ⟨_, rfl⟩) hw) fun _ _ => ?_
  refine (keeps_read (P := fun _ => True) fun _ _ => trivial).bind fun live _ => ?_
  refine .ite (fun _ => keeps_throw) fun _ => h.uuid4.bind fun token _ => ?_
  refine (keeps_onException (h.observeInteraction _ _ _) keeps_throw).bind fun _ _ => ?_
  exact Keeps.bind (keeps_write fun w hw => htable w _ (fun c => ⟨_, rfl⟩) hw) fun _ _ =>
    keeps_pure trivial

/-- A confirmation keeps what its dispatch keeps. -/
theorem confirmPreview (preview : Confirmation) (originalKey channel : String)
    (key : Option String) (approved : Option Bool) (g : Option Guard)
    (hdispatch : ∀ b, approved = some b →
      Keeps K ctx i L (Plane.dispatchBody q preview.command (!b) b g) (fun _ => True)) :
    Keeps K ctx i L (Plane.confirmPreview q preview originalKey channel key approved g)
      (fun _ => True) := by
  have hblocked : ∀ code, Keeps K ctx i L (Plane.confirmationBlocked q preview.command code)
      (fun _ => True) :=
    fun code => (h.confirmationBlocked _ code).weaken fun _ _ => trivial
  unfold Plane.confirmPreview
  dsimp only
  split
  · refine .ite (fun _ => hblocked _) fun _ => h.clock.bind fun now _ => ?_
    refine .ite (fun _ => hblocked _) fun _ => (h.guardDenial g).bind fun d _ => ?_
    cases d with
    | some code => exact hblocked code
    | none =>
      refine (keeps_onException ((h.observeInteraction _ _ _).bind fun _ _ =>
        keeps_pure trivial) (keeps_pure trivial)).bind (P := fun _ => True) fun observed _ => ?_
      exact .ite (fun _ => hdispatch _ rfl) fun _ => hblocked _
  · exact hblocked _

end Steady

end Plane

end Arhugula
