import Arhugula.Spec.FootHelper

/-!
# What a helper owes for what it types

`Sent` is what stands when a helper sends a script; `rules` is the discipline of the helpers: each script that is
sent owes it, and whoever opened the intent file for its clear leaves it there. `Does` are the triples over what
a helper did.
-/

namespace Arhugula

namespace FootHelper

open Reentrant Concurrent Strings

/-- What a helper does. -/
abbrev FAct := Act Op Answer Exc Helper Unit

/-- A log entry of the helpers. -/
abbrev FEntry := Entry Intent Op Answer Exc Helper Unit

/-- A configuration of the helpers. -/
abbrev FConfig := Config Intent Op Answer Exc Helper Unit

/-! ## What a helper did -/

/-- The helper opened the intent file for its clear. -/
def Opened (t : List FAct) : Prop := .reply (.open .clearIntent) .done ∈ t

/-- A script was acknowledged. -/
def Acked (phase : Phase) (submission : Bool) (t : List FAct) : Prop :=
  ∃ s out, .reply (.eval phase submission s) (.text out) ∈ t ∧ strip out = "ok".toList

/-- The helper began with these receipts and this window. -/
def Binds (h : Helper) (bind : Text) (bound : Window) (t : List FAct) : Prop :=
  ∃ o t', t = t' ++ ([.reply .window (.sight o), .call .window, .reply .receipts (.text bind), .call .receipts,
      .invoke h] : List FAct) ∧
    windowOf h.pid o = .ok bound

/-- **The window just read equals the bound one**, and the keyboard is literal. -/
def JustRead (h : Helper) (bound : Window) (t : List FAct) : Prop :=
  ∃ ks o t', t = .reply .devices (.devices ks) :: .call .devices :: .reply .window (.sight o) :: .call .window :: t' ∧
    isLiteral ks = true ∧ windowOf h.pid o = .ok bound

/-- The session was found idle, with so many prompts recorded. -/
def Idle (before : Session) (seen : ℕ) (t : List FAct) : Prop :=
  .reply .session (.session before) ∈ t ∧ before.status = some "idle".toList ∧
    ∃ found, .reply (.transcripts before.sessionId) (.transcripts found) ∈ t ∧
      seen = (found.flatten.filterMap promptText).length

/-- The session was found so before the clear was typed. -/
def ClearedFrom (before : Session) (seen : ℕ) (t : List FAct) : Prop :=
  ∃ t₁ t₂ s, t = t₁ ++ .call (.eval .clearIntent false s) :: t₂ ∧ Idle before seen t₂

/-- **The native clear boundary was observed**, after the clear was submitted. -/
def BoundarySeen (bind : Text) (boundary : Text × ℕ) (t : List FAct) : Prop :=
  ∃ before seen after receipts starts t₁ t₂,
    t = t₁ ++ .reply .receipts (.text receipts) :: .call .receipts :: .reply .session (.session after) ::
      .call .session :: t₂ ∧
    ClearedFrom before seen t₂ ∧ Acked .clearIntent true t₂ ∧
    sessionStarts (receiptsOf bind receipts after.sessionId) = some starts ∧ isBoundary before after starts = true ∧
    boundary = (after.sessionId, if after.sessionId = before.sessionId then seen else 0)

/-- **The pointer is the first recorded input of the cleared session.** -/
def FirstSeen (msgfile bind : Text) (t : List FAct) : Prop :=
  ∃ boundary found t₁ t₂,
    t = t₁ ++ .reply (.transcripts boundary.1) (.transcripts found) :: .call (.transcripts boundary.1) :: t₂ ∧
    BoundarySeen bind boundary t₂ ∧ Acked .deliverIntent true t₂ ∧
    ((found.flatten.filterMap promptText).drop boundary.2).head? = some (pointer msgfile)

/-- What is typed in a phase. -/
inductive Types (msgfile : Text) : Phase → Text → Prop
  | clear : Types msgfile .clearIntent "/clear".toList
  | pointer : Types msgfile .deliverIntent (pointer msgfile)
  | goal (goal : Text) : Types msgfile .goalIntent (goalText goal)

/-- What went before a phase. -/
def Ready (msgfile bind : Text) : Phase → List FAct → Prop
  | .clearIntent, _ => True
  | .deliverIntent, t => ∃ boundary, BoundarySeen bind boundary t
  | .goalIntent, t => FirstSeen msgfile bind t
  | .delivered, _ => False

/-- **What stands when a script is sent.** -/
structure Sent (msgfile : Text) (phase : Phase) (submission : Bool) (each : Text) (t : List FAct) : Prop where
  opened : Opened t
  once : ∀ s, .call (.eval phase submission s) ∉ t
  submitted : submission = true → Acked phase false t
  bound : ∃ h bind bound, .invoke h ∈ t ∧ Binds h bind bound t ∧ JustRead h bound t ∧ Ready msgfile bind phase t ∧
    ∃ text replaced submit, Types msgfile phase text ∧ composerInput bound.address text = some (replaced, submit) ∧
      each = if submission then submit else replaced

/-! ## The discipline -/

/-- Who opened the intent file leaves it there. -/
def Safe (t : List FAct) (s : Intent) : Prop := Opened t → s.isSome = true

/-- The discipline of the helpers of a message file. -/
def rules (msgfile : Text) : Discipline Intent Op Answer Exc Helper Unit where
  rely s s' := s.isSome = true → s'.isSome = true
  refl _ h := h
  trans h h' hs := h' (h hs)
  owes t x s := (∀ phase submission each, x = .call (.eval phase submission each) →
    Sent msgfile phase submission each t) ∧ ((∀ op a, x ≠ .reply op a) → Safe t s)

variable {msgfile : Text} {t t' : List FAct} {s s' : Intent} {op : Op} {x : FAct} {α β : Type}
  {F G : List FAct → Prop} {p : FM α} {P : α → List FAct → Prop}

/-- No script is sent. -/
def Op.quiet : Op → Bool
  | .eval .. => false
  | _ => true

theorem quiet_ne (hop : op.quiet = true) (phase : Phase) (submission : Bool) (each : Text) :
    op ≠ .eval phase submission each := by
  rintro rfl
  cases hop

/-- **A triple**: what a body does, from a helper that did `F`, to one that did `P`. -/
def Does (msgfile : Text) (F : List FAct → Prop) (p : FM α) (P : α → List FAct → Prop) : Prop :=
  ∀ t s, F t → Safe t s → Holds (rules msgfile) p (fun r t' s' => Safe t' s' ∧ ∀ a, r = .ok a → P a t') t s

theorem Does.bind {f : α → FM β} {R : β → List FAct → Prop} (hp : Does msgfile F p P)
    (hf : ∀ a, Does msgfile (P a) (f a) R) : Does msgfile F (p >>= f) R := by
  intro t s hF hs
  rw [Concurrent.holds_bind]
  refine (hp t s hF hs).mono fun r t' s' hr => ?_
  cases r with
  | ok a => exact hf a t' s' (hr.2 a rfl) hr.1
  | error e => exact ⟨hr.1, fun a ha => by cases ha⟩

theorem Does.weaken {P' : α → List FAct → Prop} (hp : Does msgfile F p P) (hF : ∀ t, G t → F t)
    (hP : ∀ a t, P a t → P' a t) : Does msgfile G p P' := by
  intro t s hG hs
  exact (hp t s (hF t hG) hs).mono fun r t' s' hr => ⟨hr.1, fun a ha => hP a t' (hr.2 a ha)⟩

theorem does_pure {a : α} (h : ∀ t, F t → P a t) : Does msgfile F (pure a) P := by
  intro t s hF hs
  refine ⟨hs, fun b hb => ?_⟩
  cases hb
  exact h t hF

theorem does_throw {e : Exc} : Does msgfile F (throw e : FM α) P :=
  fun _ _ _ hs => ⟨hs, fun _ ha => by cases ha⟩

theorem Does.ite {c : Prop} [Decidable c] {q : FM α} (hp : c → Does msgfile F p P) (hq : ¬ c → Does msgfile F q P) :
    Does msgfile F (if c then p else q) P := by
  by_cases hc : c
  · rw [if_pos hc]
    exact hp hc
  · rw [if_neg hc]
    exact hq hc

theorem does_read {f : Intent → α} : Does msgfile F (Prog.read f) fun _ t => F t :=
  fun _ _ hF hs => ⟨hs, fun _ _ => hF⟩

/-- A write leaves the intent file there. -/
theorem does_write (v : Option (Phase × Text)) : Does msgfile F (Prog.write fun _ => some v) fun _ t => F t :=
  fun _ _ hF _ => ⟨fun _ => rfl, fun _ => rfl, fun _ _ => hF⟩

/-- Another callback keeps the file where it was opened. -/
theorem Safe.ask {a : Answer} (hs : Safe t s) (hr : (rules msgfile).rely s s') (hop : op ≠ .open .clearIntent) :
    Safe (.reply op a :: .call op :: t) s' := by
  intro ho
  rcases List.mem_cons.1 ho with hx | ho
  · exact absurd (Act.reply.inj hx).1.symm hop
  rcases List.mem_cons.1 ho with hx | ho
  · cases hx
  · exact hr (hs ho)

/-- **A callback that sends no script.** -/
theorem does_ask (hquiet : op.quiet = true) (hop : op ≠ .open .clearIntent) :
    Does msgfile F (Prog.ask op) fun a t => ∃ t₀, t = .reply op a :: .call op :: t₀ ∧ F t₀ := by
  intro t s hF hs
  rw [Concurrent.holds_ask]
  refine ⟨⟨fun phase submission each hx => ?_, fun _ => hs⟩, fun s' hr a => ⟨⟨fun _ _ _ hx => (by cases hx), fun hx => ?_⟩, ?_⟩⟩
  · exact absurd (Act.call.inj hx) (quiet_ne hquiet _ _ _)
  · exact absurd rfl (hx op a)
  · refine ⟨hs.ask hr hop, fun b hb => ?_⟩
    cases hb
    exact ⟨t, rfl, hF⟩

/-- A call. -/
theorem does_call (op : Op) (hquiet : op.quiet = true) (hop : op ≠ .open .clearIntent) :
    Does msgfile F (call op) fun _ t => ∃ t₀, t = .reply op .done :: .call op :: t₀ ∧ F t₀ := by
  unfold call
  refine (does_ask hquiet hop).bind fun a => ?_
  cases a with
  | done => exact does_pure fun t ht => ht
  | _ => exact does_throw

/-- A file that is read. -/
theorem does_readText (op : Op) (hquiet : op.quiet = true) (hop : op ≠ .open .clearIntent) :
    Does msgfile F (readText op) fun x t => ∃ t₀, t = .reply op (.text x) :: .call op :: t₀ ∧ F t₀ := by
  unfold readText
  refine (does_ask hquiet hop).bind fun a => ?_
  cases a with
  | text x => exact does_pure fun t ht => ht
  | _ => exact does_throw

/-- `window`. -/
theorem does_window (h : Helper) : Does msgfile F (window h) fun w t =>
    ∃ o t₀, t = .reply .window (.sight o) :: .call .window :: t₀ ∧ windowOf h.pid o = .ok w ∧ F t₀ := by
  unfold window
  refine (does_ask rfl (by decide)).bind fun a => ?_
  cases a with
  | sight o =>
    dsimp only
    cases hw : windowOf h.pid o with
    | error x => exact does_throw
    | ok w =>
      refine does_pure fun t ht => ?_
      obtain ⟨t₀, rfl, hF⟩ := ht
      exact ⟨o, t₀, rfl, hw, hF⟩
  | _ => exact does_throw

/-- `keyboard`. -/
theorem does_keyboard : Does msgfile F keyboard fun _ t =>
    ∃ ks t₀, t = .reply .devices (.devices ks) :: .call .devices :: t₀ ∧ isLiteral ks = true ∧ F t₀ := by
  unfold keyboard
  refine (does_ask rfl (by decide)).bind fun a => ?_
  cases a with
  | devices ks =>
    refine Does.ite (fun hk => does_pure fun t ht => ?_) fun _ => does_throw
    obtain ⟨t₀, rfl, hF⟩ := ht
    exact ⟨ks, t₀, rfl, hk, hF⟩
  | _ => exact does_throw

/-- `session`. -/
theorem does_session (h : Helper) : Does msgfile F (session h) fun r t =>
    ∃ t₀, t = .reply .session (.session r) :: .call .session :: t₀ ∧ F t₀ := by
  unfold session
  refine (does_ask rfl (by decide)).bind fun a => ?_
  cases a with
  | session r => exact Does.ite (fun _ => does_pure fun t ht => ht) fun _ => does_throw
  | _ => exact does_throw

/-- `prompts`. -/
theorem does_prompts (id : Text) : Does msgfile F (prompts id) fun ps t =>
    ∃ found t₀, t = .reply (.transcripts id) (.transcripts found) :: .call (.transcripts id) :: t₀ ∧
      ps = found.flatten.filterMap promptText ∧ F t₀ := by
  unfold prompts
  refine (does_ask rfl (fun hx => by cases hx)).bind fun a => ?_
  cases a with
  | transcripts found =>
    refine Does.ite (fun _ => does_throw) fun _ => does_pure fun t ht => ?_
    obtain ⟨t₀, rfl, hF⟩ := ht
    exact ⟨found, t₀, rfl, rfl, hF⟩
  | _ => exact does_throw

/-! ## Facts that stand -/

/-- A fact that stands while no script is sent, but of phases in `A`. -/
def Lasting (A : Phase → Prop) (F : List FAct → Prop) : Prop :=
  ∀ x t, (∀ phase submission each, x = .call (.eval phase submission each) → A phase) → F t → F (x :: t)

variable {A B : Phase → Prop}

theorem Lasting.mono (hF : Lasting B F) (hA : ∀ phase, A phase → B phase) : Lasting A F :=
  fun x t hx => hF x t fun phase submission each he => hA phase (hx phase submission each he)

theorem Lasting.and (hF : Lasting A F) (hG : Lasting A G) : Lasting A fun t => F t ∧ G t :=
  fun x t hx h => ⟨hF x t hx h.1, hG x t hx h.2⟩

theorem lasting_mem (y : FAct) : Lasting A fun t => y ∈ t := fun _ _ _ hy => List.mem_cons_of_mem _ hy

/-- A fact about what was done at some time. -/
theorem lasting_past (hF : ∀ x t, F t → F (x :: t)) : Lasting A F := fun x t _ => hF x t

/-- A callback that sends no script leaves a fact. -/
theorem Lasting.ask (hF : Lasting A F) (op : Op) (a : Answer) (hquiet : op.quiet = true) (ht : F t) :
    F (.reply op a :: .call op :: t) := by
  refine hF _ _ (fun _ _ _ hx => by cases hx) (hF _ _ (fun phase submission each hx => ?_) ht)
  exact absurd (Act.call.inj hx) (quiet_ne hquiet _ _ _)

/-- **Polling.** -/
theorem does_polling {look : FM (Option α)} {late : Exc} (hF : Lasting A F)
    (hlook : Does msgfile F look fun o t => match o with
      | some a => P a t
      | none => F t) (left : ℕ) : Does msgfile F (polling look late left) P := by
  induction left with
  | zero =>
    unfold polling
    refine hlook.bind fun o => ?_
    cases o with
    | some a => exact does_pure fun t ht => ht
    | none => exact does_throw
  | succ left ih =>
    unfold polling
    refine hlook.bind fun o => ?_
    cases o with
    | some a => exact does_pure fun t ht => ht
    | none =>
      refine (does_call .sleep rfl (by decide)).bind fun _ => ih.weaken (fun t ht => ?_) fun _ _ h => h
      obtain ⟨t₀, rfl, ht₀⟩ := ht
      exact hF.ask _ _ rfl ht₀

end FootHelper

end Arhugula
