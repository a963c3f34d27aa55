import Arhugula.Reentrant.Keeps
import Arhugula.Spec.Speech

/-!
# What the speech queue guarantees

`speech_safe`, for every run of `say`, `poll` and `cancel`, whose callbacks may call any of them
again, and with cancellations in other threads: one start of the backend at most is not retired;
what is started finds all before it retired and no cancellation of the backend that was not clean;
where no `say` is under way, proven cleanup means that all is retired; and `say` returns `True`
only if its samples of the state agreed and no cancellation came in between.

What is said of retirement is about runs in which no callback raised what is no `Exception`. Such
a raise passes every handler, and may leave a start behind (`starts_after_interrupt`).
-/

namespace Arhugula

namespace Speech

open Reentrant Vm

variable {t : Contexts} {w w' w₁ w₂ : QWorld} {log : List QEntry} {e : QEntry}
  {ctx : List (ℕ × Op)} {i j : ℕ} {b : Bool}

/-! ## What the log says -/

/-- A start of the backend: it runs, it is over, or it is over and a cancellation was made since. -/
inductive Stage where
  | running
  | ended
  | canceling
  deriving DecidableEq

/-- **The starts that are not retired**, each with the activation that made it. What retires a
start is a clean cancellation that was made when the start was over, whether it returned or
raised. -/
def unretired : List QEntry → List (ℕ × Stage)
  | [] => []
  | e :: log =>
    match e.act with
    | .call (.start _) => (e.frame, .running) :: unretired log
    | .reply (.start _) _ => (unretired log).map fun s => if s.1 = e.frame then (s.1, .ended) else s
    | .call .cancel => (unretired log).map fun s => if s.2 = .ended then (s.1, .canceling) else s
    | .reply .cancel a =>
      if a.clean then (unretired log).filter fun s => s.2 ≠ .canceling
      else (unretired log).map fun s => if s.2 = .canceling then (s.1, .ended) else s
    | _ => unretired log

/-- What the state callback answered to activation `i`, and the epoch then. -/
def samples (log : List QEntry) (i : ℕ) : List (Answer × ℕ) :=
  log.filterMap fun e => if e.frame = i then match e.act with
    | .reply .state a => some (a, e.st.epoch)
    | _ => none
  else none

/-- A callback raised what no handler catches. -/
def Disturbed (log : List QEntry) : Prop := ∃ e ∈ log, ∃ op, e.act = .reply op (.raised true)

/-- Every cancellation of the backend was clean, as far as the handlers could tell. -/
def Clean (log : List QEntry) : Prop :=
  ∀ e ∈ log, ∀ a, e.act = .reply .cancel a → a ≠ .raised true → a.clean = true

/-- Activation `i` is a `say` that is under way. -/
def Saying (log : List QEntry) (i : ℕ) : Prop :=
  (∃ e ∈ log, e.frame = i ∧ ∃ prompt activationId, e.act = .invoke (.say prompt activationId)) ∧
    ∀ e ∈ log, e.frame = i → ∀ r, e.act ≠ .ret r

/-- **What `say` saw** before it returned `True`: four samples, in one epoch, of which the last
three agree with the first and are of an unmuted state in command mode. -/
def Agreed (t : Contexts) (log : List QEntry) (i : ℕ) (activationId : Option String) : Prop :=
  ∃ v₀ v₁ v₂ v₃ s₀ n, samples log i = [(.state v₃, n), (.state v₂, n), (.state v₁, n), (.state v₀, n)] ∧
    snapshotState t v₀ = some s₀ ∧ activationId = some s₀.activationId ∧
    ∀ v ∈ [v₁, v₂, v₃], ∃ s, snapshotState t v = some s ∧ allows t s₀ s = true

/-- What an entry owes to the entries before it. -/
structure Owes (t : Contexts) (e : QEntry) (older : List QEntry) : Prop where
  started : ∀ prompt, e.act = .call (.start prompt) →
    (¬ Disturbed older → unretired older = []) ∧ Clean older
  few : ¬ Disturbed older → (unretired older).length ≤ 1
  said : e.act = .ret (.ok true) → ∀ m ∈ older, m.frame = e.frame → ∀ prompt activationId,
    m.act = .invoke (.say prompt activationId) → Agreed t older e.frame activationId

/-! ## The contract -/

/-- **The invariant.** -/
structure QInv (t : Contexts) (w : QWorld) : Prop where
  owes : Throughout (Owes t) w.log
  epoch : ∀ e ∈ w.log, e.st.epoch ≤ w.st.epoch
  running : ∀ s ∈ unretired w.log, s.2 = .running → w.st.busy = true ∧ Saying w.log s.1
  canceling : ∀ s ∈ unretired w.log, s.2 = .canceling → w.st.stopping = true
  few : ¬ Disturbed w.log → (unretired w.log).length ≤ 1
  active : ¬ Disturbed w.log → ∀ s ∈ unretired w.log, s.2 ≠ .running → w.st.active = true
  clean : w.st.faulted = false → Clean w.log

/-- **What may change** while a call is under way: the epoch rises, and the backend may be
canceled, if it is not being canceled already. What runs goes on. -/
structure Moves (w w' : QWorld) : Prop where
  epoch : w.st.epoch ≤ w'.st.epoch
  busy : w'.st.busy = w.st.busy
  stopping : w'.st.stopping = w.st.stopping
  active : w'.st.active = true → w.st.active = true
  held : w.st.stopping = true ∨ w.st.active = false → w'.st.active = w.st.active ∧
    w'.st.faulted = w.st.faulted ∧ unretired w'.log = unretired w.log
  unretired : unretired w'.log = unretired w.log ∨
    unretired w'.log = (unretired w.log).filter fun s => s.2 = .running

theorem Moves.refl (w : QWorld) : Moves w w :=
  ⟨le_rfl, rfl, rfl, fun h => h, fun _ => ⟨rfl, rfl, rfl⟩, .inl rfl⟩

theorem Moves.trans (h : Moves w w₁) (h' : Moves w₁ w₂) : Moves w w₂ where
  epoch := h.epoch.trans h'.epoch
  busy := h'.busy.trans h.busy
  stopping := h'.stopping.trans h.stopping
  active ha := h.active (h'.active ha)
  held hs := by
    obtain ⟨ha, hf, hu⟩ := h.held hs
    obtain ⟨ha', hf', hu'⟩ := h'.held (by rw [h.stopping, ha]; exact hs)
    exact ⟨ha'.trans ha, hf'.trans hf, hu'.trans hu⟩
  unretired := by
    rcases h.unretired with hu | hu
    · rw [← hu]
      exact h'.unretired
    · rcases h'.unretired with hu' | hu'
      · exact .inr (hu'.trans hu)
      · rw [hu, List.filter_filter] at hu'
        simp only [Bool.and_self] at hu'
        exact .inr hu'

/-- A call is under way: it is busy, or it cancels the backend. -/
def Underway (w : QWorld) : Prop := w.st.busy = true ∨ w.st.stopping = true

theorem Moves.underway (h : Moves w w') (hw : Underway w) : Underway w' := by
  unfold Underway
  rw [h.busy, h.stopping]
  exact hw

/-- What is not retired after the moves was not retired before them. -/
theorem Moves.subset (h : Moves w w') {s : ℕ × Stage} (hs : s ∈ Speech.unretired w'.log) :
    s ∈ Speech.unretired w.log := by
  rcases h.unretired with hu | hu <;> rw [hu] at hs
  · exact hs
  · exact (List.mem_filter.1 hs).1

/-- **The contract of the queue.** -/
def queueContract (t : Contexts) : Contract (queue t) where
  Inv := QInv t
  Rel _ w w' := w.st.epoch ≤ w'.st.epoch ∧ (Underway w → Moves w w')
  refl _ w := ⟨le_rfl, fun _ => .refl w⟩
  trans h h' := ⟨h.1.trans h'.1, fun hu => (h.2 hu).trans (h'.2 ((h.2 hu).underway hu))⟩

/-! ## The log grows -/

theorem Disturbed.cons (h : Disturbed log) : Disturbed (e :: log) := by
  obtain ⟨m, hm, hop⟩ := h
  exact ⟨m, List.mem_cons_of_mem e hm, hop⟩

/-- Later activations add no samples. -/
theorem samples_grows (h : Grows i w w') : samples w'.log i = samples w.log i := by
  obtain ⟨-, l, hl, hnew⟩ := h
  unfold samples
  rw [hl, List.filterMap_append]
  have hnil : (l.filterMap fun e => if e.frame = i then match e.act with
      | .reply .state a => some (a, e.st.epoch)
      | _ => none else none) = [] := by
    rw [List.filterMap_eq_nil_iff]
    intro e he
    rw [if_neg (hnew e he).ne']
  rw [hnil, List.nil_append]

theorem Saying.cons (h : Saying log j) (he : e.frame = j → ∀ r, e.act ≠ .ret r) : Saying (e :: log) j := by
  obtain ⟨⟨m, hm, hrest⟩, hret⟩ := h
  refine ⟨⟨m, List.mem_cons_of_mem _ hm, hrest⟩, fun x hx hf => ?_⟩
  rcases List.mem_cons.1 hx with rfl | hx
  · exact he hf
  · exact hret x hx hf

theorem Saying.grows (h : Saying w.log i) (hg : Grows i w w') : Saying w'.log i := by
  obtain ⟨⟨m, hm, hrest⟩, hret⟩ := h
  refine ⟨⟨m, hg.mem hm, hrest⟩, fun x hx hf => ?_⟩
  obtain ⟨-, l, hl, hnew⟩ := hg
  rw [hl] at hx
  rcases List.mem_append.1 hx with hx | hx
  · exact absurd hf (hnew x hx).ne'
  · exact hret x hx hf

/-- A `say` is under way after each of its callbacks. -/
theorem Saying.asked (h : Saying w.log i) {op : Op} {a : Answer} (hg : Grows i (w.push i (.call op)) w') :
    Saying (w'.push i (.reply op a)).log i := by
  have hcall : Saying (w.push i (.call op)).log i := h.cons fun _ r hr => by cases hr
  exact (hcall.grows hg).cons fun _ r hr => by cases hr

theorem Clean.cons (h : Clean log)
    (he : ∀ a, e.act = .reply .cancel a → a ≠ .raised true → a.clean = true) : Clean (e :: log) := by
  intro x hx a hact
  rcases List.mem_cons.1 hx with rfl | hx
  · exact he a hact
  · exact h x hx a hact

/-- An act that neither starts nor cancels the backend. -/
def quiet : Act Op Answer Exc Method Bool → Bool
  | .call (.start _) | .reply (.start _) _ | .call .cancel | .reply .cancel _ => false
  | _ => true

theorem unretired_quiet {x : Act Op Answer Exc Method Bool} (h : quiet x = true) (s : SpeechQueue) :
    unretired (⟨i, x, s⟩ :: log) = unretired log := by
  cases x with
  | call op => cases op <;> first | rfl | cases h
  | reply op a => cases op <;> first | rfl | cases h
  | _ => rfl

/-- **A quiet entry.** A `ret` is quiet too, where the activation has nothing that runs. -/
theorem QInv.push (h : QInv t w) {x : Act Op Answer Exc Method Bool} (hx : quiet x = true)
    (hret : ∀ r, x = .ret r → (∀ s ∈ unretired w.log, s.2 = .running → s.1 ≠ i) ∧
      (r = .ok true → Owes t ⟨i, x, w.st⟩ w.log)) : QInv t (w.push i x) where
  owes := by
    refine ⟨?_, h.owes⟩
    by_cases hok : x = .ret (.ok true)
    · exact (hret _ hok).2 rfl
    · refine ⟨fun prompt hcall => ?_, h.few, fun hact => absurd hact hok⟩
      have hq : quiet (.call (.start prompt)) = true := hcall ▸ hx
      exact absurd hq (by simp [quiet])
  epoch e he := by
    rcases List.mem_cons.1 he with rfl | he
    · exact le_rfl
    · exact h.epoch e he
  running s hs hrun := by
    rw [World.push_log, unretired_quiet hx] at hs
    obtain ⟨hb, hsay⟩ := h.running s hs hrun
    refine ⟨hb, hsay.cons fun hi r hr => ?_⟩
    exact (hret r hr).1 s hs hrun hi.symm
  canceling s hs := by
    rw [World.push_log, unretired_quiet hx] at hs
    exact h.canceling s hs
  few hd := by
    rw [World.push_log, unretired_quiet hx]
    exact h.few fun hd' => hd hd'.cons
  active hd s hs := by
    rw [World.push_log, unretired_quiet hx] at hs
    exact h.active (fun hd' => hd hd'.cons) s hs
  clean hf := by
    refine (h.clean hf).cons fun a hact => ?_
    have hq : quiet (.reply .cancel a) = true := hact ▸ hx
    exact absurd hq (by simp [quiet])

/-- A change of the state alone. -/
theorem QInv.put (h : QInv t w) {s : SpeechQueue} (he : w.st.epoch ≤ s.epoch)
    (hb : ∀ x ∈ unretired w.log, x.2 = .running → s.busy = true)
    (hs : ∀ x ∈ unretired w.log, x.2 = .canceling → s.stopping = true)
    (ha : w.st.active = true → s.active = true) (hf : s.faulted = false → w.st.faulted = false) :
    QInv t (w.put s) where
  owes := h.owes
  epoch e hm := (h.epoch e hm).trans he
  running x hx hrun := ⟨hb x hx hrun, (h.running x hx hrun).2⟩
  canceling := hs
  few := h.few
  active hd x hx hn := ha (h.active hd x hx hn)
  clean hclean := h.clean (hf hclean)

theorem Moves.push (h : Moves w w₁) {x : Act Op Answer Exc Method Bool} (hx : quiet x = true) :
    Moves w (w₁.push i x) := by
  have hu : Speech.unretired (⟨i, x, w₁.st⟩ :: w₁.log) = Speech.unretired w₁.log :=
    unretired_quiet hx w₁.st
  refine ⟨h.epoch, h.busy, h.stopping, h.active, fun hs => ?_, ?_⟩
  · rw [World.push_log, hu]
    exact h.held hs
  · rw [World.push_log, hu]
    exact h.unretired

theorem Moves.put (h : Moves w w₁) {s : SpeechQueue} (he : w₁.st.epoch ≤ s.epoch)
    (hb : s.busy = w₁.st.busy) (hst : s.stopping = w₁.st.stopping) (ha : s.active = w₁.st.active)
    (hf : s.faulted = w₁.st.faulted) : Moves w (w₁.put s) := by
  refine ⟨h.epoch.trans he, hb.trans h.busy, hst.trans h.stopping, fun hs => h.active (ha ▸ hs), fun hs => ?_,
    h.unretired⟩
  rw [World.put_st, World.put_log, ha, hf]
  exact h.held hs

/-! ## `_stop` -/

/-- A cancellation that was made. -/
def mark (s : ℕ × Stage) : ℕ × Stage := if s.2 = .ended then (s.1, .canceling) else s

/-- A cancellation that was not clean. -/
def unmark (s : ℕ × Stage) : ℕ × Stage := if s.2 = .canceling then (s.1, .ended) else s

theorem unretired_call_cancel (s : SpeechQueue) :
    unretired (⟨i, .call .cancel, s⟩ :: log) = (unretired log).map mark := rfl

theorem unretired_reply_cancel (a : Answer) (s : SpeechQueue) :
    unretired (⟨i, .reply .cancel a, s⟩ :: log) =
      if a.clean then (unretired log).filter fun s => s.2 ≠ .canceling
      else (unretired log).map unmark := rfl

theorem mark_running {s : ℕ × Stage} (h : (mark s).2 = .running) : mark s = s ∧ s.2 = .running := by
  unfold mark at h ⊢
  split at h
  · exact absurd h (by simp)
  · rename_i hs
    exact ⟨if_neg hs, h⟩

theorem unmark_running {s : ℕ × Stage} (h : (unmark s).2 = .running) : unmark s = s ∧ s.2 = .running := by
  unfold unmark at h ⊢
  split at h
  · exact absurd h (by simp)
  · rename_i hs
    exact ⟨if_neg hs, h⟩

theorem mark_ne_ended (s : ℕ × Stage) : (mark s).2 ≠ .ended := by
  unfold mark
  split
  · simp
  · assumption

theorem unmark_ne_canceling (s : ℕ × Stage) : (unmark s).2 ≠ .canceling := by
  unfold unmark
  split
  · simp
  · assumption

/-- A cancellation that was not clean changes nothing. -/
theorem unmark_mark {u : List (ℕ × Stage)} (h : ∀ s ∈ u, s.2 ≠ .canceling) :
    (u.map mark).map unmark = u := by
  rw [List.map_map]
  refine (List.map_congr_left fun s hs => ?_).trans (List.map_id u)
  have hne := h s hs
  obtain ⟨n, stage⟩ := s
  cases stage with
  | running => rfl
  | ended => rfl
  | canceling => exact absurd rfl hne

/-- A cancellation that was clean leaves what runs. -/
theorem filter_mark {u : List (ℕ × Stage)} (h : ∀ s ∈ u, s.2 ≠ .canceling) :
    ((u.map mark).filter fun s => s.2 ≠ .canceling) = u.filter fun s => s.2 = .running := by
  induction u with
  | nil => rfl
  | cons s u ih =>
    have hne := h s List.mem_cons_self
    have hu := ih fun x hx => h x (List.mem_cons_of_mem s hx)
    obtain ⟨n, stage⟩ := s
    cases stage with
    | running => simpa [mark] using hu
    | ended => simpa [mark] using hu
    | canceling => exact absurd rfl hne

theorem QInv.call_cancel (h : QInv t w) (hs : w.st.stopping = true) :
    QInv t (w.push i (.call .cancel)) where
  owes := ⟨⟨fun prompt hcall => (by cases hcall), h.few, fun hret => (by cases hret)⟩, h.owes⟩
  epoch e he := by
    rcases List.mem_cons.1 he with rfl | he
    · exact le_rfl
    · exact h.epoch e he
  running s hm hrun := by
    rw [World.push_log, unretired_call_cancel] at hm
    obtain ⟨x, hx, rfl⟩ := List.mem_map.1 hm
    obtain ⟨heq, hxr⟩ := mark_running hrun
    rw [heq]
    obtain ⟨hb, hsay⟩ := h.running x hx hxr
    exact ⟨hb, hsay.cons fun _ r hr => by cases hr⟩
  canceling _ _ _ := hs
  few hd := by
    rw [World.push_log, unretired_call_cancel, List.length_map]
    exact h.few fun hd' => hd hd'.cons
  active hd s hm hn := by
    rw [World.push_log, unretired_call_cancel] at hm
    obtain ⟨x, hx, rfl⟩ := List.mem_map.1 hm
    refine h.active (fun hd' => hd hd'.cons) x hx fun hrun => hn ?_
    unfold mark
    rw [if_neg (by rw [hrun]; simp), hrun]
  clean hf := (h.clean hf).cons fun a hact => by cases hact

/-- The answer of the backend, and what `_stop` makes of it. -/
theorem QInv.reply_cancel (h : QInv t w) {a : Answer} {s : SpeechQueue}
    (hover : ∀ x ∈ unretired w.log, x.2 ≠ .ended) (he : s.epoch = w.st.epoch) (hb : s.busy = w.st.busy)
    (hres : (a = .raised true ∧ s.faulted = w.st.faulted) ∨
      (s.active = !a.clean ∧ s.faulted = (w.st.faulted || !a.clean))) :
    QInv t ((w.push i (.reply .cancel a)).put s) := by
  have hmem : ∀ x ∈ unretired (⟨i, .reply .cancel a, w.st⟩ :: w.log),
      x.2 ≠ .canceling ∧ (x.2 = .running → x ∈ unretired w.log) ∧ (a.clean = true → x.2 = .running) := by
    intro x hx
    rw [unretired_reply_cancel] at hx
    split at hx
    · obtain ⟨hxu, hne⟩ := List.mem_filter.1 hx
      have hne' : x.2 ≠ .canceling := by simpa using hne
      refine ⟨hne', fun _ => hxu, fun _ => ?_⟩
      cases hstage : x.2 with
      | running => rfl
      | ended => exact absurd hstage (hover x hxu)
      | canceling => exact absurd hstage hne'
    · rename_i hclean
      obtain ⟨y, hy, rfl⟩ := List.mem_map.1 hx
      refine ⟨unmark_ne_canceling y, fun hrun => ?_, fun hc => absurd hc hclean⟩
      rw [(unmark_running hrun).1]
      exact hy
  have hundisturbed : ¬ Disturbed (⟨i, .reply .cancel a, w.st⟩ :: w.log) → a ≠ .raised true := by
    rintro hd rfl
    exact hd ⟨_, List.mem_cons_self, _, rfl⟩
  refine ⟨⟨⟨fun prompt hcall => (by cases hcall), h.few, fun hret => (by cases hret)⟩, h.owes⟩, fun e hm => ?_,
    fun x hx hrun => ?_, fun x hx hc => absurd hc (hmem x hx).1, fun hd => ?_, fun hd x hx hn => ?_,
    fun hf => ?_⟩
  · rw [World.put_st, he]
    rcases List.mem_cons.1 hm with rfl | hm
    · exact le_rfl
    · exact h.epoch e hm
  · obtain ⟨hbusy, hsay⟩ := h.running x ((hmem x hx).2.1 hrun) hrun
    exact ⟨hb.trans hbusy, hsay.cons fun _ r hr => by cases hr⟩
  · have hlen := h.few fun hd' => hd hd'.cons
    rw [World.put_log, World.push_log, unretired_reply_cancel]
    split
    · exact (List.length_filter_le _ _).trans hlen
    · rw [List.length_map]
      exact hlen
  · obtain ⟨ha, -⟩ := hres.resolve_left fun hr => hundisturbed hd hr.1
    have hc : a.clean = false := by
      by_contra hc
      exact hn ((hmem x hx).2.2 (by simpa using hc))
    rw [World.put_st, ha, hc]
    rfl
  · rcases hres with ⟨rfl, hfault⟩ | ⟨-, hfault⟩
    · rw [World.put_st, hfault] at hf
      refine (h.clean hf).cons fun b hact hne => ?_
      cases hact
      exact absurd rfl hne
    · rw [World.put_st, hfault, Bool.or_eq_false_iff] at hf
      refine (h.clean hf.1).cons fun b hact _ => ?_
      cases hact
      simpa using hf.2

/-- What a part of a call leaves, if it starts nothing. -/
structure Passed (t : Contexts) (i : ℕ) (w w' : QWorld) : Prop where
  inv : QInv t w'
  moves : Moves w w'
  saying : Saying w.log i → Saying w'.log i

/-- What `_stop` leaves to its caller. -/
structure Stopped (t : Contexts) (i : ℕ) (w : QWorld) (r : Except Exc Unit) (w' : QWorld) : Prop
    extends Passed t i w w' where
  samples : samples w'.log i = samples w.log i
  failed : ∀ e, r = .error e → e = .interrupt
  faulted : r = .ok () → w.st.stopping = false → w'.st.active = true → w'.st.faulted = true

/-- A change of the snapshot or of the code. -/
theorem QInv.keep (h : QInv t w) {s : SpeechQueue} (he : s.epoch = w.st.epoch) (hb : s.busy = w.st.busy)
    (hs : s.stopping = w.st.stopping) (ha : s.active = w.st.active) (hf : s.faulted = w.st.faulted) :
    QInv t (w.put s) := by
  refine h.put he.ge (fun x hx hrun => hb.trans (h.running x hx hrun).1)
    (fun x hx hc => hs.trans (h.canceling x hx hc)) (fun hact => ha.trans hact) fun hfault => ?_
  rw [← hf]
  exact hfault

/-- **`_stop`**, while a call is under way or not. -/
theorem holds_stop (h : QInv t w) : Holds (queueContract t) ctx i stop (Stopped t i w) w := by
  unfold stop
  rw [holds_bind, holds_read]
  dsimp only [id]
  split
  · rename_i hst
    exact ⟨⟨h, .refl w, id⟩, rfl, fun e he => (by cases he), fun _ hst' => absurd hst (by rw [hst']; simp)⟩
  rename_i hst
  rw [Bool.not_eq_true] at hst
  split
  · rename_i hact
    -- the backend is asked with `_stopping` set, and what nested calls do leaves its starts alone
    have hnone : ∀ s ∈ unretired w.log, s.2 ≠ .canceling := by
      intro s hs hc
      rw [h.canceling s hs hc] at hst
      cases hst
    have hstop : QInv t (w.put (SpeechQueue.stop true w.st)) :=
      h.put le_rfl (fun s hs hrun => (h.running s hs hrun).1) (fun _ _ _ => rfl) id id
    rw [holds_bind, holds_write]
    dsimp only
    rw [holds_bind]
    unfold cancelBackend onException
    rw [holds_lastly, holds_catching, holds_bind, holds_ask]
    refine ⟨hstop.call_cancel rfl, fun w₁ hi hg hr a _ => ?_⟩
    have hm := hr.2 (.inr rfl)
    obtain ⟨hactive, hfaulted, hun⟩ := hm.held (.inl rfl)
    have hact₁ : w₁.st.active = true := hactive.trans hact
    rw [World.push_log, unretired_call_cancel, World.put_log] at hun
    have hover : ∀ s ∈ unretired w₁.log, s.2 ≠ .ended := by
      intro s hs
      rw [hun] at hs
      obtain ⟨x, -, rfl⟩ := List.mem_map.1 hs
      exact mark_ne_ended x
    have hsamples : samples (w₁.push i (.reply .cancel a)).log i = samples w.log i := by
      have hgrow := samples_grows hg
      simpa [samples] using hgrow
    have hsaying : Saying w.log i → Saying (w₁.push i (.reply .cancel a)).log i := fun hs =>
      Saying.asked (w := w.put (SpeechQueue.stop true w.st)) hs hg
    have hmoves : ∀ s : SpeechQueue, s.epoch = w₁.st.epoch → s.busy = w₁.st.busy → s.stopping = false →
        Moves w ((w₁.push i (.reply .cancel a)).put s) := by
      intro s he hb hs
      refine ⟨hm.epoch.trans he.ge, hb.trans hm.busy, hs.trans hst.symm, fun _ => hact, fun hheld => ?_, ?_⟩
      · rw [hst, hact] at hheld
        simp at hheld
      · rw [World.put_log, World.push_log, unretired_reply_cancel, hun]
        split
        · exact .inr (filter_mark hnone)
        · exact .inl (unmark_mark hnone)
    -- the outcome of a cancellation that did not raise past the handler
    have hdone : Stopped t i w (.ok ()) ((w₁.push i (.reply .cancel a)).put
        (SpeechQueue.settle (SpeechQueue.retire a.clean (SpeechQueue.stop false w₁.st)))) := by
      refine ⟨⟨hi.reply_cancel hover rfl rfl (.inr ⟨rfl, rfl⟩), hmoves _ rfl rfl rfl, hsaying⟩, hsamples,
        fun e he => (by cases he), fun _ _ hclean => ?_⟩
      simp only [World.put_st, SpeechQueue.settle, SpeechQueue.retire] at hclean ⊢
      rw [hclean, Bool.or_true]
    cases a with
    | raised interrupt =>
      cases interrupt with
      | true =>
        exact ⟨⟨hi.reply_cancel hover rfl rfl (.inl ⟨rfl, rfl⟩), hmoves _ rfl rfl rfl, hsaying⟩, hsamples,
          fun e he => (by cases he; rfl), fun hok => (by cases hok)⟩
      | false => exact hdone
    | state v => exact hdone
    | result status code => exact hdone
    | object => exact hdone
  · exact ⟨⟨h.keep rfl rfl rfl rfl rfl, (Moves.refl w).put le_rfl rfl rfl rfl rfl, id⟩, rfl,
      fun e he => (by cases he), fun _ _ hact => absurd hact (by assumption)⟩

/-! ## `_current` -/

/-- **A sample of the state.** -/
theorem holds_sample (h : QInv t w) (hu : Underway w) :
    Holds (queueContract t) ctx i (sample t) (fun r w' => Passed t i w w' ∧
      ∀ s, r = .ok s → ∃ v, snapshotState t v = some s ∧
        samples w'.log i = (.state v, w'.st.epoch) :: samples w.log i) w := by
  have hret : ∀ {op : Op} {r : Except Exc Bool}, Act.call op ≠ (Act.ret r : Act Op Answer Exc Method Bool) :=
    fun hact => (by cases hact)
  unfold sample
  rw [holds_bind, holds_ask]
  refine ⟨h.push rfl fun r hr => absurd hr hret, fun w₁ hi hg hr a _ => ?_⟩
  have hm : Moves w w₁ := ((Moves.refl w).push rfl).trans (hr.2 hu)
  have hpass : Passed t i w (w₁.push i (.reply .state a)) :=
    ⟨hi.push rfl fun r hr => (by cases hr), hm.push rfl, fun hs => hs.asked hg⟩
  have hsamples : samples (w₁.push i (.reply .state a)).log i =
      (a, w₁.st.epoch) :: samples w.log i := by
    have hgrow := samples_grows hg
    simpa [samples] using hgrow
  cases a with
  | raised interrupt => exact ⟨hpass, fun s hs => (by cases hs)⟩
  | result status code => exact ⟨hpass, fun s hs => (by cases hs)⟩
  | object => exact ⟨hpass, fun s hs => (by cases hs)⟩
  | state v =>
    dsimp only
    split
    · rename_i s hsnap
      refine ⟨hpass, fun s' hs' => ⟨v, ?_, hsamples⟩⟩
      cases hs'
      exact hsnap
    · exact ⟨hpass, fun s hs => (by cases hs)⟩

/-- **A look at the state**, and at the epoch. -/
theorem holds_isCurrent (h : QInv t w) (hu : Underway w) (snapshot : Option VoiceState) (epoch : ℕ) :
    Holds (queueContract t) ctx i (isCurrent t snapshot epoch) (fun r w' => Passed t i w w' ∧
      (r = .ok true → w'.st.epoch = epoch ∧ ∃ v s s₀, snapshot = some s₀ ∧ snapshotState t v = some s ∧
        allows t s₀ s = true ∧ samples w'.log i = (.state v, w'.st.epoch) :: samples w.log i)) w := by
  unfold isCurrent
  rw [holds_bind]
  refine (holds_sample h hu).mono fun r w₁ ⟨hpass, hs⟩ => ?_
  cases r with
  | error e => exact ⟨hpass, fun hr => (by cases hr)⟩
  | ok s =>
    obtain ⟨v, hsnap, hsamples⟩ := hs s rfl
    dsimp only
    rw [holds_bind, holds_read]
    refine ⟨hpass, fun hr => ?_⟩
    simp only [Except.ok.injEq, Bool.and_eq_true, decide_eq_true_eq, Option.any_eq_true] at hr
    obtain ⟨⟨s₀, hs₀, hallow⟩, hepoch⟩ := hr
    exact ⟨hepoch.symm, v, s, s₀, hs₀, hsnap, hallow, hsamples⟩

/-! ## `say` -/

/-- The end of a body under `except Exception`. -/
abbrev Guarded (t : Contexts) (ctx : List (ℕ × Op)) (i : ℕ) {α : Type} (h : QM α)
    (Q : Except Exc α → QWorld → Prop) : Except Exc α → QWorld → Prop :=
  Reentrant.Guarded (queueContract t) ctx i (· = Exc.interrupt) h Q

theorem holds_onException {α : Type} {p h : QM α} {Q : Except Exc α → QWorld → Prop}
    (hp : Holds (queueContract t) ctx i p (Guarded t ctx i h Q) w) :
    Holds (queueContract t) ctx i (onException p h) Q w :=
  holds_guarded hp

theorem Guarded.pass {α : Type} {h : QM α} {Q : Except Exc α → QWorld → Prop} {r : Except Exc α}
    (hr : r ≠ .error .exception) (hq : Q r w) : Guarded t ctx i h Q r w := by
  refine Reentrant.Guarded.pass (fun e he => ?_) hq
  cases e with
  | interrupt => rfl
  | exception => exact absurd he hr

theorem Guarded.handle {α : Type} {h : QM α} {Q : Except Exc α → QWorld → Prop}
    (hh : Holds (queueContract t) ctx i h Q w) : Guarded t ctx i h Q (.error .exception) w :=
  Reentrant.Guarded.handle (by simp) hh

/-- A `say` or a `poll` between its callbacks: nothing runs in the backend. -/
structure Speaks (t : Contexts) (i : ℕ) (w₀ w : QWorld) : Prop where
  inv : QInv t w
  epoch : w₀.st.epoch ≤ w.st.epoch
  busy : w.st.busy = true
  stopping : w.st.stopping = false
  still : ∀ s ∈ unretired w.log, s.2 ≠ .running
  saying : Saying w₀.log i → Saying w.log i

theorem Speaks.passed (h : Speaks t i w w₁) (hp : Passed t i w₁ w₂) : Speaks t i w w₂ where
  inv := hp.inv
  epoch := h.epoch.trans hp.moves.epoch
  busy := hp.moves.busy.trans h.busy
  stopping := hp.moves.stopping.trans h.stopping
  still s hs := h.still s (hp.moves.subset hs)
  saying hs := hp.saying (h.saying hs)

/-- A change of the snapshot, of the code, or to a backend that is active. -/
theorem Speaks.put (h : Speaks t i w w₁) {s : SpeechQueue} (he : s.epoch = w₁.st.epoch)
    (hb : s.busy = w₁.st.busy) (hs : s.stopping = w₁.st.stopping)
    (ha : w₁.st.active = true → s.active = true) (hf : s.faulted = w₁.st.faulted) :
    Speaks t i w (w₁.put s) where
  inv := by
    refine h.inv.put he.ge (fun x hx hrun => absurd hrun (h.still x hx))
      (fun x hx hc => hs.trans (h.inv.canceling x hx hc)) ha fun hfault => ?_
    rw [← hf]
    exact hfault
  epoch := h.epoch.trans he.ge
  busy := hb.trans h.busy
  stopping := hs.trans h.stopping
  still := h.still
  saying := h.saying

/-- **`_stop` in a `say`.** Without a fault the backend is not active. -/
theorem Speaks.stop (h : Speaks t i w w₁) : Holds (queueContract t) ctx i stop (fun r w₂ =>
    Speaks t i w w₂ ∧ samples w₂.log i = samples w₁.log i ∧ (∀ e, r = .error e → e = .interrupt) ∧
      (r = .ok () → w₂.st.faulted = false → w₂.st.active = false)) w₁ := by
  refine (holds_stop h.inv).mono fun r w₂ hstop =>
    ⟨h.passed hstop.toPassed, hstop.samples, hstop.failed, fun hok hf => ?_⟩
  by_contra hactive
  rw [Bool.not_eq_false] at hactive
  rw [hstop.faulted hok h.stopping hactive] at hf
  cases hf

/-- Where the backend is not active, nothing is left in it. -/
theorem Speaks.ready (h : Speaks t i w w₁) (ha : w₁.st.active = false) (hf : w₁.st.faulted = false) :
    (¬ Disturbed w₁.log → unretired w₁.log = []) ∧ Clean w₁.log := by
  refine ⟨fun hd => ?_, h.inv.clean hf⟩
  rw [List.eq_nil_iff_forall_not_mem]
  intro s hs
  rw [h.inv.active hd s hs (h.still s hs)] at ha
  cases ha

/-- The backend is started where nothing before it is left. -/
theorem Speaks.call_start (h : Speaks t i w w₁) (hsay : Saying w.log i) {prompt : String}
    (hready : (¬ Disturbed w₁.log → unretired w₁.log = []) ∧ Clean w₁.log) :
    QInv t (w₁.push i (.call (.start prompt))) where
  owes := ⟨⟨fun _ _ => hready, h.inv.few, fun hret => (by cases hret)⟩, h.inv.owes⟩
  epoch e he := by
    rcases List.mem_cons.1 he with rfl | he
    · exact le_rfl
    · exact h.inv.epoch e he
  running s hs _ := by
    refine ⟨h.busy, ?_⟩
    rcases List.mem_cons.1 hs with rfl | hs
    · exact (h.saying hsay).cons fun _ r hr => by cases hr
    · exact absurd ‹_› (h.still s hs)
  canceling s hs hc := by
    rcases List.mem_cons.1 hs with rfl | hs
    · cases hc
    · exact h.inv.canceling s hs hc
  few hd := by
    show ((i, Stage.running) :: unretired w₁.log).length ≤ 1
    rw [hready.1 fun hd' => hd hd'.cons]
    exact le_rfl
  active hd s hs hn := by
    rcases List.mem_cons.1 hs with rfl | hs
    · exact absurd rfl hn
    · rw [hready.1 fun hd' => hd hd'.cons] at hs
      cases hs
  clean hf := (h.inv.clean hf).cons fun a hact => by cases hact

/-- The start is over, and the queue owns what it left. -/
theorem Speaks.reply_start (h : Speaks t i w w₁) {prompt : String} {a : Answer} {s : SpeechQueue}
    (hi : QInv t w₂) (hg : Grows i (w₁.push i (.call (.start prompt))) w₂)
    (hm : Moves (w₁.push i (.call (.start prompt))) w₂) (he : s.epoch = w₂.st.epoch)
    (hb : s.busy = w₂.st.busy) (hs : s.stopping = w₂.st.stopping) (hf : s.faulted = w₂.st.faulted)
    (hact : s.active = true ∨ a = .raised true) :
    Speaks t i w ((w₂.push i (.reply (.start prompt) a)).put s) := by
  have hmem : ∀ x ∈ unretired (⟨i, .reply (.start prompt) a, w₂.st⟩ :: w₂.log),
      x.2 ≠ .running ∧ (x.2 = .canceling → x ∈ unretired w₂.log) := by
    intro x hx
    obtain ⟨y, hy, rfl⟩ := List.mem_map.1 hx
    dsimp only
    split
    · exact ⟨by simp, fun hc => (by cases hc)⟩
    · rename_i hne
      refine ⟨?_, fun _ => hy⟩
      rcases List.mem_cons.1 (hm.subset hy) with rfl | hy'
      · exact absurd rfl hne
      · exact h.still y hy'
  have hbusy : s.busy = true := (hb.trans hm.busy).trans h.busy
  have hstopping : s.stopping = false := (hs.trans hm.stopping).trans h.stopping
  refine ⟨⟨⟨⟨fun p hcall => (by cases hcall), hi.few, fun hret => (by cases hret)⟩, hi.owes⟩, fun e hx => ?_,
    fun x hx hrun => absurd hrun (hmem x hx).1, fun x hx hc => ?_, fun hd => ?_, fun hd x hx hn => ?_,
    fun hfault => ?_⟩, ?_, hbusy, hstopping, fun x hx => (hmem x hx).1,
    fun hs => (h.saying hs).asked hg⟩
  · rw [World.put_st, he]
    rcases List.mem_cons.1 hx with rfl | hx
    · exact le_rfl
    · exact hi.epoch e hx
  · exact hs.trans (hi.canceling x ((hmem x hx).2 hc) hc)
  · show (List.map _ (unretired w₂.log)).length ≤ 1
    rw [List.length_map]
    exact hi.few fun hd' => hd hd'.cons
  · refine hact.resolve_right ?_
    rintro rfl
    exact hd ⟨_, List.mem_cons_self, _, rfl⟩
  · rw [World.put_st, hf] at hfault
    exact (hi.clean hfault).cons fun b hreply => by cases hreply
  · rw [World.put_st, he]
    exact h.epoch.trans hm.epoch

/-- **A way out of `say` with `False`.** -/
theorem Speaks.leave (h : Speaks t i w w₁) (code : String) {α : Type} (a : α) :
    Holds (queueContract t) ctx i (do
      Prog.write (SpeechQueue.tell code)
      Speech.stop
      pure a) (fun r w₂ => Speaks t i w w₂ ∧ (r = .ok a ∨ r = .error .interrupt)) w₁ := by
  rw [holds_bind, holds_write]
  dsimp only
  rw [holds_bind]
  have htold : Speaks t i w (w₁.put (w₁.st.tell code)) := h.put rfl rfl rfl id rfl
  refine htold.stop.mono fun r w₂ h₂ => ?_
  cases r with
  | error e =>
    have he := h₂.2.2.1 e rfl
    subst he
    exact ⟨h₂.1, .inr rfl⟩
  | ok _ => exact ⟨h₂.1, .inl rfl⟩

/-- What `launch` leaves. It returns `True` after one more look at the state. -/
structure Launched (t : Contexts) (i : ℕ) (w w₁ : QWorld) (snapshot : VoiceState) (epoch : ℕ)
    (r : Except Exc Bool) (w₂ : QWorld) : Prop where
  speaks : Speaks t i w w₂
  said : r = .ok true → ∃ v s, snapshotState t v = some s ∧ allows t snapshot s = true ∧
    samples w₂.log i = (.state v, epoch) :: samples w₁.log i

/-- **The rest of `say`, once the queue is stopped.** -/
theorem Speaks.launch (h : Speaks t i w w₁) (hsay : Saying w.log i) (prompt : String) (snapshot : VoiceState) (epoch : ℕ)
    (hready : (¬ Disturbed w₁.log → unretired w₁.log = []) ∧ Clean w₁.log) :
    Holds (queueContract t) ctx i (launch t prompt snapshot epoch)
      (Launched t i w w₁ snapshot epoch) w₁ := by
  have howned : Speaks t i w (w₁.put { w₁.st.own with snapshot := some snapshot }) :=
    h.put rfl rfl rfl (fun _ => rfl) rfl
  have hleft : ∀ r w₂, (Speaks t i w w₂ ∧ (r = .ok false ∨ r = .error .interrupt)) →
      Launched t i w w₁ snapshot epoch r w₂ := by
    rintro r w₂ ⟨h₂, rfl | rfl⟩
    · exact ⟨h₂, fun hok => (by cases hok)⟩
    · exact ⟨h₂, fun hok => (by cases hok)⟩
  unfold Speech.launch
  rw [holds_bind, holds_write]
  dsimp only
  rw [holds_bind]
  refine Holds.mono (Q := Launched t i w w₁ snapshot epoch) ?_ fun r w₂ h₂ => ?_
  · apply holds_onException
    rw [holds_bind, holds_ask]
    refine ⟨howned.call_start hsay hready, fun w₂ hi hg hr a _ => ?_⟩
    have hm := hr.2 (.inl howned.busy)
    have hsamples : samples (w₂.push i (.reply (.start prompt) a)).log i = samples w₁.log i := by
      have hgrow := samples_grows hg
      simpa [samples] using hgrow
    have hover : Speaks t i w ((w₂.push i (.reply (.start prompt) a)).put w₂.st.own) :=
      howned.reply_start hi hg hm rfl rfl rfl rfl (.inl rfl)
    -- a start that returned: the state must still be what it was
    have hreturned : Holds (queueContract t) ctx i (do
        Prog.write SpeechQueue.own
        if ← isCurrent t (some snapshot) epoch then pure true
        else do
          Prog.write (SpeechQueue.tell "speech.stale")
          Speech.stop
          pure false) (Guarded t ctx i (do
            Prog.write SpeechQueue.own
            Prog.write (SpeechQueue.tell "speech.unavailable")
            Speech.stop
            pure false) (Launched t i w w₁ snapshot epoch))
        (w₂.push i (.reply (.start prompt) a)) := by
      rw [holds_bind, holds_write]
      dsimp only
      rw [holds_bind]
      refine (holds_isCurrent hover.inv (.inl hover.busy) _ _).mono fun r w₃ ⟨hpass, hcurrent⟩ => ?_
      have h₃ := hover.passed hpass
      rcases r with e | b
      · cases e with
        | interrupt => exact Guarded.pass (by simp) ⟨h₃, fun hok => (by cases hok)⟩
        | exception =>
          have hown : Speaks t i w (w₃.put w₃.st.own) := h₃.put rfl rfl rfl (fun _ => rfl) rfl
          refine Guarded.handle ?_
          rw [holds_bind, holds_write]
          exact (hown.leave "speech.unavailable" false).mono hleft
      · cases b with
        | false =>
          refine (h₃.leave "speech.stale" false).mono fun r w₄ h₄ => ?_
          refine Guarded.pass ?_ (hleft r w₄ h₄)
          rcases h₄.2 with rfl | rfl <;> simp
        | true =>
          obtain ⟨hepoch, v, s, s₀, hs₀, hsnap, hallow, hnew⟩ := hcurrent rfl
          cases hs₀
          refine Guarded.pass (by simp) ⟨h₃, fun _ => ⟨v, s, hsnap, hallow, ?_⟩⟩
          rw [hnew, hepoch]
          exact congrArg _ hsamples
    cases a with
    | raised interrupt =>
      cases interrupt with
      | true =>
        refine Guarded.pass (by simp) ⟨?_, fun hok => (by cases hok)⟩
        exact howned.reply_start (s := w₂.st) hi hg hm rfl rfl rfl rfl (.inr rfl)
      | false =>
        refine Guarded.handle ?_
        rw [holds_bind, holds_write]
        exact (hover.leave "speech.unavailable" false).mono hleft
    | state v => exact hreturned
    | result status code => exact hreturned
    | object => exact hreturned
  · rcases r with e | b
    · exact h₂
    · cases b with
      | false => exact h₂
      | true => exact ⟨h₂.speaks.put rfl rfl rfl id rfl, h₂.said⟩

/-- **The first look of `say` at the state.** Its two samples are of one epoch. -/
theorem Speaks.consider (h : Speaks t i w w₁) (activationId : Option String) :
    Holds (queueContract t) ctx i (consider t activationId w₁.st.epoch) (fun r w₂ => Speaks t i w w₂ ∧
      ∀ s₀, r = .ok (some (s₀, true)) → activationId = some s₀.activationId ∧
        ∃ v₀ v₁ s, snapshotState t v₀ = some s₀ ∧ snapshotState t v₁ = some s ∧ allows t s₀ s = true ∧
          samples w₂.log i =
            (.state v₁, w₁.st.epoch) :: (.state v₀, w₁.st.epoch) :: samples w₁.log i) w₁ := by
  unfold Speech.consider
  apply holds_onException
  rw [holds_bind]
  refine (holds_sample h.inv (.inl h.busy)).mono fun r w₂ ⟨hpass, hsample⟩ => ?_
  have h₂ := h.passed hpass
  rcases r with e | s₀
  · cases e with
    | exception => exact Guarded.handle ⟨h₂, fun s hs => (by cases hs)⟩
    | interrupt => exact Guarded.pass (by simp) ⟨h₂, fun s hs => (by cases hs)⟩
  obtain ⟨v₀, hsnap₀, hnew₀⟩ := hsample s₀ rfl
  dsimp only
  split
  · exact Guarded.pass (by simp) ⟨h₂, fun s hs => (by cases hs)⟩
  rename_i hid
  rw [holds_bind]
  refine (holds_isCurrent h₂.inv (.inl h₂.busy) _ _).mono fun r w₃ ⟨hpass', hcurrent⟩ => ?_
  have h₃ := h₂.passed hpass'
  rcases r with e | b
  · cases e with
    | exception => exact Guarded.handle ⟨h₃, fun s hs => (by cases hs)⟩
    | interrupt => exact Guarded.pass (by simp) ⟨h₃, fun s hs => (by cases hs)⟩
  refine Guarded.pass (by simp) ⟨h₃, fun s hs => ?_⟩
  cases hs
  obtain ⟨hepoch, v₁, s₁, s, heq, hsnap₁, hallow, hnew₁⟩ := hcurrent rfl
  cases heq
  -- the epoch never falls, and is the old one at the second sample
  have hle := hpass.moves.epoch
  have hle' := hpass'.moves.epoch
  have hepoch₂ : w₂.st.epoch = w₁.st.epoch := by omega
  rw [hnew₀, hepoch, hepoch₂] at hnew₁
  exact ⟨not_not.1 hid, v₀, v₁, s₁, hsnap₀, hsnap₁, hallow, hnew₁⟩

/-- **`say`, while it is busy.** -/
theorem Speaks.announce (h : Speaks t i w w₁) (hsay : Saying w.log i) (prompt : String)
    (activationId : Option String) (hnone : samples w₁.log i = []) :
    Holds (queueContract t) ctx i (announce t prompt activationId) (fun r w₂ => Speaks t i w w₂ ∧
      (r = .ok true → Agreed t w₂.log i activationId)) w₁ := by
  have hleft : ∀ (r : Except Exc Bool) (w₂ : QWorld),
      (Speaks t i w w₂ ∧ (r = .ok false ∨ r = .error .interrupt)) → Speaks t i w w₂ ∧ (r = .ok true → Agreed t w₂.log i activationId) := by
    rintro r w₂ ⟨h₂, rfl | rfl⟩
    · exact ⟨h₂, fun hok => (by cases hok)⟩
    · exact ⟨h₂, fun hok => (by cases hok)⟩
  unfold Speech.announce
  rw [holds_bind, holds_read]
  dsimp only
  rw [holds_bind]
  refine (h.consider activationId).mono fun r w₂ ⟨h₂, hseen⟩ => ?_
  rcases r with e | considered
  · exact ⟨h₂, fun hok => (by cases hok)⟩
  rcases considered with - | ⟨s₀, eligible⟩
  · exact (h₂.leave _ false).mono hleft
  cases eligible with
  | false => exact (h₂.leave _ false).mono hleft
  | true =>
    obtain ⟨hid, v₀, v₁, s₁, hsnap₀, hsnap₁, hallow₁, hsamples₂⟩ := hseen s₀ rfl
    dsimp only
    rw [holds_bind]
    refine h₂.stop.mono fun r w₃ ⟨h₃, hsamples₃, _, hidle⟩ => ?_
    rcases r with e | _
    · exact ⟨h₃, fun hok => (by cases hok)⟩
    dsimp only
    rw [holds_bind, holds_read]
    dsimp only
    split
    · exact ⟨h₃, fun hok => (by cases hok)⟩
    rename_i hfault
    rw [Bool.not_eq_true] at hfault
    rw [holds_bind]
    refine Holds.mono (Q := fun r w₄ => Speaks t i w w₄ ∧ (r = .ok true →
      ((¬ Disturbed w₄.log → unretired w₄.log = []) ∧ Clean w₄.log) ∧ ∃ v s, snapshotState t v = some s ∧
        allows t s₀ s = true ∧ samples w₄.log i = (.state v, w₁.st.epoch) :: samples w₃.log i)) ?_ ?_
    · apply holds_onException
      refine (holds_isCurrent h₃.inv (.inl h₃.busy) _ _).mono fun r w₄ ⟨hpass, hcurrent⟩ => ?_
      have h₄ := h₃.passed hpass
      obtain ⟨hactive, hfaulted, -⟩ := hpass.moves.held (.inr (hidle rfl hfault))
      rcases r with e | b
      · cases e with
        | exception => exact Guarded.handle ⟨h₄, fun hok => (by cases hok)⟩
        | interrupt => exact Guarded.pass (by simp) ⟨h₄, fun hok => (by cases hok)⟩
      refine Guarded.pass (by simp) ⟨h₄, fun hok => ?_⟩
      cases hok
      obtain ⟨hepoch, v, s, s', heq, hsnap, hallow, hnew⟩ := hcurrent rfl
      cases heq
      rw [hepoch] at hnew
      exact ⟨h₄.ready (hactive.trans (hidle rfl hfault)) (hfaulted.trans hfault), v, s, hsnap, hallow, hnew⟩
    rintro r w₄ ⟨h₄, hcurrent⟩
    rcases r with e | b
    · exact ⟨h₄, fun hok => (by cases hok)⟩
    cases b with
    | false =>
      dsimp only
      rw [if_neg (by simp), holds_bind, holds_write]
      exact ⟨h₄.put rfl rfl rfl id rfl, fun hok => (by cases hok)⟩
    | true =>
      obtain ⟨hstill, v₂, s₂, hsnap₂, hallow₂, hsamples₄⟩ := hcurrent rfl
      dsimp only
      rw [if_pos rfl]
      refine (h₄.launch hsay prompt s₀ w₁.st.epoch hstill).mono fun r w₅ h₅ => ⟨h₅.speaks, fun hok => ?_⟩
      obtain ⟨v₃, s₃, hsnap₃, hallow₃, hsamples₅⟩ := h₅.said hok
      refine ⟨v₀, v₁, v₂, v₃, s₀, w₁.st.epoch, ?_, hsnap₀, hid, ?_⟩
      · rw [hsamples₅, hsamples₄, hsamples₃, hsamples₂, hnone]
      · intro v hv
        simp only [List.mem_cons, List.not_mem_nil, or_false] at hv
        rcases hv with rfl | rfl | rfl
        · exact ⟨s₁, hsnap₁, hallow₁⟩
        · exact ⟨s₂, hsnap₂, hallow₂⟩
        · exact ⟨s₃, hsnap₃, hallow₃⟩

/-! ## The methods -/

theorem Moves.enter (w : QWorld) (m : Method) : Moves w (w.enter m) :=
  ⟨le_rfl, rfl, rfl, id, fun _ => ⟨rfl, rfl, rfl⟩, .inl rfl⟩

theorem QInv.enter (h : QInv t w) (m : Method) : QInv t (w.enter m) := by
  have hpush := h.push (i := w.next) (x := .invoke m) rfl fun r hr => by cases hr
  exact ⟨hpush.owes, hpush.epoch, hpush.running, hpush.canceling, hpush.few, hpush.active, hpush.clean⟩

/-- What runs in the backend was started by an activation that began. -/
theorem QInv.fresh (h : QInv t w) (hlog : ∀ e ∈ w.log, e.frame < i) {s : ℕ × Stage}
    (hs : s ∈ unretired w.log) (hrun : s.2 = .running) : s.1 ≠ i := by
  obtain ⟨⟨e, he, hf, -⟩, -⟩ := (h.running s hs hrun).2
  have hlt := hlog e he
  omega

/-- What a method leaves before it returns, if it returns no `True`. -/
structure Ended (t : Contexts) (w : QWorld) (r : Except Exc Bool) (w' : QWorld) : Prop where
  inv : QInv t w'
  epoch : w.st.epoch ≤ w'.st.epoch
  moves : Underway w → Moves w w'
  running : ∀ s ∈ unretired w'.log, s.2 = .running → s ∈ unretired w.log
  value : r ≠ .ok true

theorem Ended.ret {r : Except Exc Bool} (h : Ended t w r w') (hw : QInv t w)
    (hlog : ∀ e ∈ w.log, e.frame < w.next) : QInv t (w'.push w.next (.ret r)) ∧
      (w.st.epoch ≤ w'.st.epoch ∧ (Underway w → Moves w (w'.push w.next (.ret r)))) := by
  refine ⟨h.inv.push rfl fun r' hr' => ?_, h.epoch, fun hu => (h.moves hu).push rfl⟩
  cases hr'
  exact ⟨fun s hs hrun => hw.fresh hlog (h.running s hs hrun) hrun, fun hok => absurd hok h.value⟩

theorem Moves.ended (h : Moves w w') (hi : QInv t w') {r : Except Exc Bool} (hr : r ≠ .ok true) :
    Ended t w r w' :=
  ⟨hi, h.epoch, fun _ => h, fun _ hs _ => h.subset hs, hr⟩

/-- **`cancel`, under the lock**, from a world that `w` moves to. -/
theorem holds_finish (hi : QInv t w₁) (hm : Moves w w₁) : Holds (queueContract t) ctx i (do
    finish
    pure false) (Ended t w) w₁ := by
  unfold finish
  rw [holds_bind, holds_bind, holds_write]
  dsimp only
  have htold : QInv t (w₁.put (w₁.st.tell "speech.canceled")) := hi.keep rfl rfl rfl rfl rfl
  refine (holds_stop htold).mono fun r w₂ h₂ => ?_
  have hmtold : Moves w (w₁.put (w₁.st.tell "speech.canceled")) := hm.put le_rfl rfl rfl rfl rfl
  have hm₂ : Moves w w₂ := hmtold.trans h₂.moves
  cases r with
  | error e => exact hm₂.ended h₂.inv (by simp)
  | ok _ => exact hm₂.ended h₂.inv (by simp)

/-- A call that is let in: from here it is busy. -/
theorem QInv.occupied (h : QInv t w) (hb : w.st.busy = false) (hs : w.st.stopping = false) (m : Method) :
    Speaks t w.next (w.enter m) ((w.enter m).put (w.st.occupy true)) where
  inv := (h.enter m).put le_rfl (fun _ _ _ => rfl) (fun s hx hc => (h.enter m).canceling s hx hc) id id
  epoch := le_rfl
  busy := rfl
  stopping := hs
  still s hx hrun := by
    have hbusy : w.st.busy = true := ((h.enter m).running s hx hrun).1
    rw [hb] at hbusy
    cases hbusy
  saying := id

/-- The end of a call that was busy. -/
theorem Speaks.released (h : Speaks t i w w₁) : QInv t (w₁.put (w₁.st.occupy false)) :=
  h.inv.put le_rfl (fun x hx hrun => absurd hrun (h.still x hx))
    (fun x hx hc => h.inv.canceling x hx hc) id id

/-- **`say`.** -/
theorem holds_say (h : QInv t w) (hlog : ∀ e ∈ w.log, e.frame < w.next) (prompt activationId : Option String) :
    Holds (queueContract t) ctx w.next (say t prompt activationId)
      (fun r w' => QInv t (w'.push w.next (.ret r)) ∧
        (w.st.epoch ≤ w'.st.epoch ∧ (Underway w → Moves w (w'.push w.next (.ret r)))))
      (w.enter (.say prompt activationId)) := by
  have hbegun : Moves w (w.enter (.say prompt activationId)) := .enter w _
  unfold say
  rw [holds_bind, holds_read]
  dsimp only [id]
  split
  · exact (hbegun.ended (h.enter _) (by simp)).ret h hlog
  rename_i hfree
  simp only [World.enter_st, Bool.or_eq_true, not_or, Bool.not_eq_true] at hfree
  obtain ⟨⟨-, hb⟩, hs⟩ := hfree
  have hrest : ¬ Underway w := by
    rintro (hbusy | hstop)
    · rw [hb] at hbusy
      cases hbusy
    · rw [hs] at hstop
      cases hstop
  split
  · rw [holds_bind, holds_write]
    have htold : QInv t ((w.enter (.say prompt activationId)).put (w.st.tell "speech.invalid-prompt")) :=
      (h.enter _).keep rfl rfl rfl rfl rfl
    have hmoved : Moves w ((w.enter (.say prompt activationId)).put (w.st.tell "speech.invalid-prompt")) :=
      hbegun.put le_rfl rfl rfl rfl rfl
    exact (hmoved.ended htold (by simp)).ret h hlog
  rename_i text _
  rw [holds_bind, holds_write]
  dsimp only
  rw [holds_lastly]
  have hspeaks := h.occupied hb hs (.say prompt activationId)
  have hsay : Saying (w.enter (.say prompt activationId)).log w.next := by
    refine ⟨⟨_, List.mem_cons_self, rfl, prompt, activationId, rfl⟩, fun e he hf r hr => ?_⟩
    rcases List.mem_cons.1 he with rfl | he
    · cases hr
    · exact absurd hf (hlog e he).ne
  have hnone : samples (w.enter (.say prompt activationId)).log w.next = [] := by
    unfold samples
    rw [List.filterMap_eq_nil_iff]
    intro e he
    rcases List.mem_cons.1 he with rfl | he
    · simp
    · rw [if_neg (hlog e he).ne]
  have honly : ∀ e ∈ (w.enter (.say prompt activationId)).log, e.frame = w.next → ∀ x, e.act = .invoke x →
      x = .say prompt activationId := by
    intro e he hf x hx
    rcases List.mem_cons.1 he with rfl | he
    · cases hx
      rfl
    · exact absurd hf (hlog e he).ne
  refine ((hspeaks.announce hsay text activationId hnone).invoked
    (P := fun (x : Method) _ => x = Method.say prompt activationId) honly).mono fun r w₁ ⟨⟨h₁, hsaid⟩, honly₁⟩ => ?_
  rw [holds_write]
  refine ⟨h₁.released.push rfl fun r' hr' => ⟨fun s hx hrun => absurd hrun (h₁.still s hx), fun hok => ?_⟩,
    h₁.epoch, fun hu => absurd hu hrest⟩
  cases hr'
  refine ⟨fun _ hcall => (by cases hcall), h₁.inv.few, fun _ m hm hf prompt' activationId' hact => ?_⟩
  cases honly₁ m hm hf _ hact
  exact hsaid hok

/-- **`poll`.** -/
theorem holds_poll (h : QInv t w) : Holds (queueContract t) ctx w.next (do
    poll t
    pure false) (Ended t w) (w.enter .poll) := by
  unfold poll
  rw [holds_bind, holds_bind, holds_read]
  dsimp only [id]
  split
  · exact (Moves.enter w .poll).ended (h.enter .poll) (by simp)
  rename_i hfree
  simp only [World.enter_st, Bool.or_eq_true, not_or, Bool.not_eq_true] at hfree
  obtain ⟨⟨-, hb⟩, hs⟩ := hfree
  have hspeaks := h.occupied hb hs .poll
  have hend : ∀ r w₁, Speaks t w.next (w.enter .poll) w₁ → r ≠ .ok true →
      Ended t w r (w₁.put (w₁.st.occupy false)) := by
    intro r w₁ h₁ hr
    refine ⟨h₁.released, h₁.epoch, fun hu => ?_, fun s hx hrun => absurd hrun (h₁.still s hx), hr⟩
    unfold Underway at hu
    rw [hb, hs] at hu
    simp at hu
  rw [holds_bind, holds_write]
  dsimp only
  rw [holds_lastly, holds_bind]
  refine Holds.mono (Q := fun _ w₁ => Speaks t w.next (w.enter .poll) w₁) ?_ ?_
  · apply holds_onException
    refine (holds_isCurrent hspeaks.inv (.inl rfl) _ _).mono fun r w₁ ⟨hpass, _⟩ => ?_
    have h₁ := hspeaks.passed hpass
    rcases r with e | b
    · cases e with
      | exception => exact Guarded.handle h₁
      | interrupt => exact Guarded.pass (by simp) h₁
    · exact Guarded.pass (by simp) h₁
  rintro r w₁ h₁
  rcases r with e | b
  · exact hend _ w₁ h₁ (by simp)
  cases b with
  | true => exact hend _ w₁ h₁ (by simp)
  | false =>
    dsimp only
    rw [if_pos (by rfl)]
    rw [holds_bind, holds_write]
    have htold : Speaks t w.next (w.enter .poll) (w₁.put (w₁.st.tell "speech.stale")) :=
      h₁.put rfl rfl rfl id rfl
    refine htold.stop.mono fun r w₂ ⟨h₂, _⟩ => ?_
    rcases r with e | _
    · exact hend _ w₂ h₂ (by simp)
    · exact hend _ w₂ h₂ (by simp)

/-- **Every method keeps the contract.** -/
theorem queue_kept (t : Contexts) : (queueContract t).Kept where
  method ctx m w _ hlog _ h := by
    cases m with
    | say prompt activationId => exact holds_say h hlog prompt activationId
    | poll => exact (holds_poll h).mono fun r w' hend => hend.ret h hlog
    | cancel =>
      have hraised : QInv t ((w.enter .cancel).put { w.st with epoch := w.st.epoch + 1 }) :=
        (h.enter .cancel).put (Nat.le_succ _) (fun s hs hrun => ((h.enter .cancel).running s hs hrun).1)
          (fun s hs hc => (h.enter .cancel).canceling s hs hc) id id
      have hmoved : Moves w ((w.enter .cancel).put { w.st with epoch := w.st.epoch + 1 }) :=
        (Moves.enter w .cancel).put (Nat.le_succ _) rfl rfl rfl rfl
      exact (holds_finish hraised hmoved).mono fun r w' hend => hend.ret h hlog
    | advance =>
      have hraised : QInv t ((w.enter .advance).put
          { w.st with epoch := w.st.epoch + 1, waiting := w.st.waiting + 1 }) :=
        (h.enter .advance).put (Nat.le_succ _) (fun s hs hrun => ((h.enter .advance).running s hs hrun).1)
          (fun s hs hc => (h.enter .advance).canceling s hs hc) id id
      have hmoved : Moves w ((w.enter .advance).put
          { w.st with epoch := w.st.epoch + 1, waiting := w.st.waiting + 1 }) :=
        (Moves.enter w .advance).put (Nat.le_succ _) rfl rfl rfl rfl
      exact (hmoved.ended hraised (by simp)).ret h hlog
    | finish =>
      have htaken : QInv t ((w.enter .finish).put { w.st with waiting := w.st.waiting - 1 }) :=
        (h.enter .finish).keep rfl rfl rfl rfl rfl
      have hmoved : Moves w ((w.enter .finish).put { w.st with waiting := w.st.waiting - 1 }) :=
        (Moves.enter w .finish).put le_rfl rfl rfl rfl rfl
      exact (holds_finish htaken hmoved).mono fun r w' hend => hend.ret h hlog
  crash _ _ _ hcrash := by cases hcrash

theorem QInv.new (t : Contexts) : QInv t (Machine.start SpeechQueue.new : QConfig).w :=
  ⟨trivial, fun _ he => (by cases he), fun _ hs => (by cases hs), fun _ hs => (by cases hs),
    fun _ => Nat.zero_le 1, fun _ _ hs => (by cases hs), fun _ _ he => (by cases he)⟩

/-! ## The theorem -/

/-- **The speech queue is safe**, in every run. -/
theorem speech_safe {cfg : QConfig} (h : (queue t).Reachable SpeechQueue.new cfg) :
    (∀ newer older, cfg.w.log = newer ++ older → ¬ Disturbed older → (unretired older).length ≤ 1) ∧
    (∀ newer e older prompt, cfg.w.log = newer ++ e :: older → e.act = .call (.start prompt) →
      (¬ Disturbed older → unretired older = []) ∧ Clean older) ∧
    (¬ Disturbed cfg.w.log → cfg.w.st.cleanupProven = true → (∀ i, ¬ Saying cfg.w.log i) →
      unretired cfg.w.log = []) ∧
    (∀ newer e older, cfg.w.log = newer ++ e :: older → e.act = .ret (.ok true) →
      ∀ m ∈ older, m.frame = e.frame → ∀ prompt activationId,
        m.act = .invoke (.say prompt activationId) → Agreed t older e.frame activationId) := by
  have hinv : QInv t cfg.w := Contract.sound (queue_kept t) (QInv.new t) h
  refine ⟨fun newer older hlog hd => ?_, fun newer e older prompt hlog hact => ?_, fun hd hproven hsay => ?_,
    fun newer e older hlog hact => ?_⟩
  · rcases List.eq_nil_or_concat newer with rfl | ⟨l, e, rfl⟩
    · rw [List.nil_append] at hlog
      rw [← hlog] at hd ⊢
      exact hinv.few hd
    · have howes := hinv.owes
      rw [hlog, List.concat_eq_append, List.append_assoc] at howes
      exact howes.at.few hd
  · have howes := hinv.owes
    rw [hlog] at howes
    exact howes.at.started prompt hact
  · simp only [SpeechQueue.cleanupProven, Bool.and_eq_true, Bool.not_eq_true'] at hproven
    rw [List.eq_nil_iff_forall_not_mem]
    intro s hs
    by_cases hrun : s.2 = .running
    · exact hsay s.1 (hinv.running s hs hrun).2
    · have hactive := hinv.active hd s hs hrun
      rw [hproven.1.1] at hactive
      cases hactive
  · have howes := hinv.owes
    rw [hlog] at howes
    exact howes.at.said hact

namespace Example

/-- Contexts without members. -/
def contexts : Contexts := ⟨some, fun a b => a.isEmpty && b.isEmpty⟩

/-- A state in which the queue may speak. -/
def listening : Answer := .state ⟨[], "key", "turn", false, "command"⟩

/-- A `say` up to its start of the backend. -/
def speak : List (Input Answer Method) :=
  .invoke (.say (some "Please repeat the command.") (some "turn")) :: List.replicate 3 (.reply listening)

/-- A `cancel` with a clean answer. -/
def quit : List (Input Answer Method) := [.invoke .cancel, .reply (.result "canceled" "process.canceled")]

end Example

/-- A call of `say` returned `True`. -/
def said (e : QEntry) : Bool :=
  match e.act with
  | .ret (.ok true) => true
  | _ => false

/-- The last entry starts the backend, after a call of `say` that returned `True`. -/
def startsAgain (c : QConfig) : Bool :=
  match c.w.log with
  | ⟨_, .call (.start _), _⟩ :: older => older.any said
  | _ => false

/-- Two calls of `say` that return `True`, each with a start of its own. -/
theorem speech_safe_twice :
    ∃ (cfg : QConfig) (e : QEntry) (older : List QEntry) (prompt : String),
      (queue Example.contexts).Reachable SpeechQueue.new cfg ∧ cfg.w.log = e :: older ∧
        e.act = .call (.start prompt) ∧ (∃ m ∈ older, m.act = .ret (.ok true)) ∧
        ((¬ Disturbed older → unretired older = []) ∧ Clean older) := by
  obtain ⟨cfg, hcfg, ht⟩ := Machine.Reachable.of_run (queue Example.contexts) SpeechQueue.new
    (Example.speak ++ [.reply .object, .reply Example.listening] ++ Example.quit ++ Example.speak)
    startsAgain (by decide +kernel)
  unfold startsAgain at ht
  split at ht
  · rename_i i prompt s older hlog
    obtain ⟨m, hm, hret⟩ := List.any_eq_true.1 ht
    unfold said at hret
    refine ⟨cfg, _, older, prompt, hcfg, hlog, rfl, ⟨m, hm, ?_⟩,
      (speech_safe hcfg).2.1 [] _ older prompt hlog rfl⟩
    split at hret
    · assumption
    · cases hret
  · cases ht

/-- **A start that raises what is no `Exception`, after a cancellation from within it, is left
behind**: the backend is not active, and is started again. -/
theorem starts_after_interrupt :
    ∃ cfg : QConfig, (queue Example.contexts).Reachable SpeechQueue.new cfg ∧
      (unretired cfg.w.log).length = 2 := by
  obtain ⟨cfg, hcfg, ht⟩ := Machine.Reachable.of_run (queue Example.contexts) SpeechQueue.new
    (Example.speak ++ Example.quit ++ [.reply (.raised true)] ++ Example.speak)
    (fun c => (unretired c.w.log).length = 2) (by decide +kernel)
  exact ⟨cfg, hcfg, of_decide_eq_true ht⟩

end Speech

end Arhugula
