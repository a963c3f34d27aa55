import Arhugula.Proof.CommunicationDelivery

/-!
# Comments and pointers in every run

`ensure_once`: an operation stores one comment on an issue, and what is returned names the one comment that
carries its marker. `deliver_once`: an operation queues again only where the queue refused, and what was
queued, or may have been, is repeated or held.
-/

namespace Arhugula

namespace Communication

open Reentrant Durable Strings

variable {sha256 : Text → Text} {w w' : DWorld} {i : ℕ} {m : Method} {p : Pointer} {start : Desk} {cfg : DConfig}
  {ctx : List (ℕ × Op)} {newer older : List DEntry} {e : DEntry}

/-! ## The calls -/

/-- **`deliver_pointer` keeps the contract.** -/
theorem holds_deliver {w₀ : DWorld} (h : Before sha256 i (.deliver p) w₀ w) :
    Holds (deskContract sha256) ctx i (.receipt <$> deliverPointer sha256 p)
      (fun res w' => DInv sha256 (w'.push i (.ret res)) ∧ Beside w₀ (w'.push i (.ret res))) w := by
  have hunseen : ∀ {log : List DEntry}, (∀ e ∈ log, e.frame = i →
      e.act = .invoke (.deliver p) ∨ e.act = .call .lock ∨ ∃ a, e.act = .reply .lock a) →
      ¬ Queued i p.operationId log ∧ ¬ Saw i p.operationId log := by
    intro log hearly
    constructor
    · rintro ⟨e, he, hf, thread, t, hact⟩
      rcases hearly e he hf with hx | hx | ⟨a, hx⟩
      · rw [hact] at hx
        cases hx
      · rw [hact] at hx
        cases hx
      · rw [hact] at hx
        cases hx
    · rintro ⟨e, he, hf, hact⟩
      rcases hearly e he hf with hx | hx | ⟨a, hx⟩
      · rw [hact] at hx
        cases hx
      · rw [hact] at hx
        cases hx
      · rw [hact] at hx
        cases hx
  have hfail : ∀ {w' : DWorld} {x : Exc}, Before sha256 i (.deliver p) w₀ w' →
      DInv sha256 (w'.push i (.ret (.error x))) ∧ Beside w₀ (w'.push i (.ret (.error x))) := by
    intro w' x hb
    refine hb.after.ret (fun _ _ _ hm => by cases hm) fun p' hm e _ _ => ?_
    cases hm
    obtain ⟨hq, hs⟩ := hunseen hb.early
    exact OwesReceipt.unseen hq hs
  show Holds _ ctx i (deliverPointer sha256 p >>= fun v => pure (Value.receipt v)) _ w
  rw [holds_bind]
  unfold deliverPointer operation
  dsimp only
  split
  · exact hfail h
  rw [holds_bind]
  split
  swap
  · exact hfail h
  rw [holds_pure]
  dsimp only
  rw [holds_bind]
  refine holds_lease h (P := fun k res w' => Owed i p (k p.operationId) w'.log res)
    (fun w' k h' => holds_delivering (h'.weaken hunseen)) (fun k r' res w' hw howed ha => ?_) fun x w' hb _ => hfail hb
  have hreceipt : ∀ {res' : Except Exc Value},
      OwesReceipt i p (k p.operationId) w'.log res' →
      DInv sha256 ((w'.put { w'.st with held := false }).push i (.ret res')) ∧
        Beside w₀ ((w'.put { w'.st with held := false }).push i (.ret res')) := by
    intro res' ho
    refine ha.ret (fun _ _ _ hm => by cases hm) fun p' hm e he hf => ?_
    cases hm
    exact ho.earlier (hw.free e he hf p.operationId)
  cases res with
  | ok id => exact hreceipt howed
  | error x => exact hreceipt howed

/-- An entry that begins a call. -/
theorem DInv.before (h : DInv sha256 w) (hnew : ∀ e ∈ w.log, e.frame < w.next) :
    Before sha256 w.next m w (w.enter m) := by
  have hinv : DInv sha256 (w.push w.next (.invoke m)) := h.plain trivial
  have hbeside : Beside w (w.push w.next (.invoke m)) := (Beside.refl w).push trivial
  refine ⟨⟨hinv.lawful, hinv.posted, hinv.clear, hinv.stable⟩, ⟨hbeside.held, hbeside.records, hbeside.quiet⟩,
    ⟨_, List.mem_cons_self, rfl, rfl⟩, fun e he hf => ?_⟩
  rcases List.mem_cons.1 he with rfl | he
  · exact .inl rfl
  · have hlt := hnew e he
    omega

/-- **Every call keeps the contract.** -/
theorem desk_kept : (deskContract sha256).Kept where
  method ctx m w _ hnew _ h := by
    have hbefore : Before sha256 w.next m w (w.enter m) := h.before hnew
    have hother : ∀ {s : Desk}, (∀ c ∈ w.st.comments, c ∈ s.comments) → s.records = w.st.records →
        s.held = w.st.held → (∀ issue o b, m ≠ .ensure issue o b) → (∀ p, m ≠ .deliver p) →
        DInv sha256 (((w.enter m).put s).push w.next (.ret (.ok .none))) ∧
          Beside w (((w.enter m).put s).push w.next (.ret (.ok .none))) := by
      intro s hc hr hh hensure hdeliver
      have hinv : DInv sha256 ((w.enter m).put s) := by
        refine hbefore.inv.put hc (fun o hp => hbefore.inv.clear o (hr ▸ hp)) fun e he hf o => ?_
        rw [hr]
        exact hbefore.inv.stable e he hf o
      have hafter : After sha256 w.next m w ((w.enter m).put s) :=
        ⟨hinv, ⟨hh, fun _ => hr, hbefore.beside.quiet⟩, hbefore.only⟩
      exact hafter.ret (fun issue o b hm => absurd hm (hensure issue o b)) fun p hm => absurd hm (hdeliver p)
    cases m with
    | ensure issue operationId body => exact holds_ensure hbefore
    | deliver p => exact holds_deliver hbefore
    | foreign c =>
      show Holds _ ctx w.next (Prog.write _ >>= fun _ => pure Value.none) _ _
      rw [holds_bind, holds_write]
      exact hother (fun c' hc => List.mem_append_left _ hc) rfl rfl (fun _ _ _ hm => by cases hm) fun _ hm => by cases hm
    | route control =>
      show Holds _ ctx w.next (Prog.write _ >>= fun _ => pure Value.none) _ _
      rw [holds_bind, holds_write]
      exact hother (fun c' hc => hc) rfl rfl (fun _ _ _ hm => by cases hm) fun _ hm => by cases hm
  crash w s h hs := by
    cases hs
    have hput : DInv sha256 (w.put { w.st with held := false }) :=
      h.put (fun c hc => hc) h.clear h.stable
    have hcrash : DInv sha256 ((w.put { w.st with held := false }).push w.next .crash) := hput.plain trivial
    exact ⟨hcrash.lawful, hcrash.posted, hcrash.clear, hcrash.stable⟩

theorem desk_reachable (h : (desk sha256).Reachable start cfg) : DInv sha256 cfg.w :=
  Contract.sound desk_kept ⟨trivial, fun e he => (by cases he), fun _ _ e he => (by cases he),
    fun e he => by cases he⟩ h

/-- What the entries of a run owe. -/
theorem desk_lawful (h : (desk sha256).Reachable start cfg) (hlog : cfg.w.log = newer ++ e :: older) :
    Lawful sha256 e older := by
  have hlawful := (desk_reachable h).lawful
  rw [hlog] at hlawful
  exact hlawful.at

/-! ## The results -/

/-- **`ensure_comment` posts at most once.** In every run a comment that it stores is the first of its operation
on that issue; it returns the one stored comment that carries the marker, with exactly the marked body; and it
raises `Hold` elsewhere, but for a lease that is taken, a lock file that cannot be had, and an interruption. -/
theorem ensure_once (h : (desk sha256).Reachable start cfg) (hlog : cfg.w.log = newer ++ e :: older) :
    (∀ issue operationId, Posts issue operationId e → ∀ e' ∈ older, ¬ Posts issue operationId e') ∧
    ∀ res, e.act = .ret res → ∀ e₀ ∈ older, e₀.frame = e.frame → ∀ issue operationId body,
      e₀.act = .invoke (.ensure issue operationId body) →
        OwesComment sha256 e.frame issue operationId body e.st.comments older res :=
  ⟨(desk_lawful h hlog).posted, (desk_lawful h hlog).published⟩

/-- **`deliver_pointer` never queues twice.** In every run, with crashes: the queue is called for an operation
only after refusals, by a call that found its comment and its routing as claimed; and to each record that was
left before it, a call owes what `OwesReceipt` says. -/
theorem deliver_once (h : (desk sha256).Reachable start cfg) (hlog : cfg.w.log = newer ++ e :: older) :
    (∀ operationId thread t, e.act = .call (.queue operationId thread t) →
      Clear operationId older ∧ Checked sha256 e.frame operationId thread t older) ∧
    ∀ res, e.act = .ret res → ∀ e₀ ∈ older, e₀.frame = e.frame → ∀ p, e₀.act = .invoke (.deliver p) →
      ∀ e₁ ∈ older, e₁.st.held = false → OwesReceipt e.frame p (e₁.st.records p.operationId) older res :=
  ⟨(desk_lawful h hlog).queued, (desk_lawful h hlog).delivered⟩

/-! ### Runs -/

namespace Example

def issue : Text := "trial".toList
def operationId : Text := "operation-1".toList
def content : Text := "Review.".toList
def session : Text := "session".toList
def message : Text := "message".toList

/-- A pointer to the comment `c` of that operation; a body is its own hash. -/
def pointer : Pointer where
  recipient := ⟨⟨"implementer".toList, "reviewer".toList⟩, session⟩
  comment := ⟨issue, "c".toList, text content operationId, operationId, []⟩
  operationId := "delivery-1".toList
  sender := ⟨"coder".toList, "author".toList⟩
  action := "Review".toList

def refusal : Error := ⟨.other, "QueueFailed".toList, "exit".toList, "QueueFailed('exit')".toList⟩

/-- What is done to a desk. -/
abbrev Steps := List (Input Answer Method)

/-- The comment is stored, although its call times out. -/
def posted : List (Input Answer Method) :=
  [.invoke (.ensure issue operationId content), .reply .done, .reply .done,
    .reply (.stored "c".toList (some (.exception refusal))), .reply .done]

/-- The queue refuses once, then takes the pointer; a third call finds it queued. -/
def delivered : List (Input Answer Method) :=
  posted ++ ([.invoke (.route (some ⟨false, [⟨"implementer".toList, some session, some "codex".toList⟩]⟩)),
    .invoke (.deliver pointer)] : Steps) ++ List.replicate 6 (Input.reply Answer.done) ++
  ([.reply (.raised (.refused refusal)), .reply .done, .reply .done,
    .invoke (.deliver pointer)] : Steps) ++ List.replicate 6 (Input.reply Answer.done) ++
  ([.reply (.queued message), .reply .done, .reply .done,
    .invoke (.deliver pointer)] : Steps) ++ List.replicate 4 (Input.reply Answer.done)

/-- A second call while the first holds the lease. -/
def overlapping : List (Input Answer Method) :=
  [.invoke (.ensure issue operationId content), .reply .done,
    .invoke (.ensure issue operationId content), .reply .done]

/-- What the last entry returns. -/
def returned (log : List DEntry) : Option (ℕ × Except Exc Value) :=
  log.head?.bind fun e => match e.act with
    | .ret r => some (e.frame, r)
    | _ => none

/-- An activation was called so. -/
def called (i : ℕ) (m : Method) (log : List DEntry) : Bool :=
  log.any fun e => e.frame = i && match e.act with
    | .invoke m' => decide (m' = m)
    | _ => false

/-- When an activation was called, the lease was free and the record so. -/
def foundBy (i : ℕ) (p : Delivery → Bool) (operationId : Text) (log : List DEntry) : Bool :=
  log.any fun e => e.frame = i && !e.st.held && match e.act, e.st.records operationId with
    | .invoke _, .holding d => p d
    | _, _ => false

theorem returned_split {log : List DEntry} {r : Except Exc Value} (h : returned log = some (i, r)) :
    ∃ e older, log = e :: older ∧ e.frame = i ∧ e.act = .ret r := by
  cases log with
  | nil => cases h
  | cons e older =>
    refine ⟨e, older, rfl, ?_⟩
    unfold returned at h
    simp only [List.head?_cons, Option.bind_some] at h
    split at h
    · rename_i r' hact
      simp only [Option.some.injEq, Prod.mk.injEq] at h
      obtain ⟨rfl, rfl⟩ := h
      exact ⟨rfl, hact⟩
    · cases h

theorem called_mem {log : List DEntry} (h : called i m log = true) :
    ∃ e ∈ log, e.frame = i ∧ e.act = .invoke m := by
  obtain ⟨e, he, ht⟩ := List.any_eq_true.1 h
  simp only [Bool.and_eq_true, decide_eq_true_eq] at ht
  obtain ⟨hf, hact⟩ := ht
  refine ⟨e, he, hf, ?_⟩
  split at hact
  · rename_i m' hm
    rw [hm, of_decide_eq_true hact]
  · cases hact

/-- The record that the call found. -/
theorem foundBy_mem {log : List DEntry} {P : Delivery → Bool} {o : Text} (h : foundBy i P o log = true) :
    ∃ e ∈ log, (∃ m, e.act = .invoke m) ∧ e.st.held = false ∧ ∃ d, e.st.records o = .holding d ∧ P d = true := by
  obtain ⟨e, he, ht⟩ := List.any_eq_true.1 h
  simp only [Bool.and_eq_true, decide_eq_true_eq, Bool.not_eq_true'] at ht
  obtain ⟨⟨-, hfree⟩, hrec⟩ := ht
  split at hrec
  · rename_i m hact hd
    exact ⟨e, he, ⟨_, hact⟩, hfree, _, hd, hrec⟩
  · cases hrec

end Example

/-- A comment whose call timed out is verified. -/
theorem ensure_once_posted :
    ∃ cfg, (desk id).Reachable (fresh [] none) cfg ∧ ∃ e older c failures, cfg.w.log = e :: older ∧
      e.act = .ret (.ok (.comment ⟨Example.issue, c.id, text Example.content Example.operationId, Example.operationId,
        failures⟩)) ∧ carried e.st.comments Example.issue (label ++ Example.operationId) = [c] := by
  obtain ⟨cfg, hcfg, ht⟩ := Machine.Reachable.of_run (desk id) (fresh [] none) Example.posted
    (fun c => decide (((Example.returned c.w.log).any fun r => r.1 = 0 && r.2.isOk) = true ∧
      Example.called 0 (.ensure Example.issue Example.operationId Example.content) c.w.log = true)) (by decide +kernel)
  obtain ⟨hret, hcalled⟩ := of_decide_eq_true ht
  obtain ⟨⟨j, r⟩, hr, hok⟩ := (Option.any_eq_true _ _).1 hret
  simp only [Bool.and_eq_true, decide_eq_true_eq] at hok
  obtain ⟨rfl, hok⟩ := hok
  obtain ⟨e, older, hlog, hf, hact⟩ := Example.returned_split hr
  obtain ⟨e₀, he₀, hf₀, hact₀⟩ := Example.called_mem hcalled
  rw [hlog] at he₀
  have hmem : e₀ ∈ older := by
    rcases List.mem_cons.1 he₀ with rfl | he₀
    · rw [hact] at hact₀
      cases hact₀
    · exact he₀
  obtain ⟨-, hpublished⟩ := @ensure_once id (fresh [] none) cfg [] older e hcfg hlog
  have howes := hpublished r hact e₀ hmem (hf₀.trans hf.symm) _ _ _ hact₀
  cases r with
  | error x => cases hok
  | ok v =>
    obtain ⟨c, failures, rfl, -, hc⟩ := howes
    exact ⟨cfg, hcfg, e, older, c, failures, hlog, hact, hc⟩

/-- A pointer that was refused once and queued once: the third call repeats its receipt. -/
theorem deliver_once_repeated :
    ∃ cfg, (desk id).Reachable (fresh [] none) cfg ∧ ∃ e older, cfg.w.log = e :: older ∧
      Repeats e.frame Example.pointer Example.message older
        (.ok (.receipt ⟨Example.pointer.comment, Example.session, Example.message, Example.pointer.text⟩)) := by
  obtain ⟨cfg, hcfg, ht⟩ := Machine.Reachable.of_run (desk id) (fresh [] none) Example.delivered
    (fun c => decide (Example.returned c.w.log = some (4, .ok (.receipt ⟨Example.pointer.comment, Example.session,
        Example.message, Example.pointer.text⟩)) ∧
      Example.called 4 (.deliver Example.pointer) c.w.log = true ∧
      Example.foundBy 4 (fun d => d.intent = Example.pointer.intent && d.state = .enqueued Example.message)
        Example.pointer.operationId c.w.log = true)) (by decide +kernel)
  obtain ⟨hret, hcalled, hfound⟩ := of_decide_eq_true ht
  obtain ⟨e, older, hlog, hf, hact⟩ := Example.returned_split hret
  obtain ⟨e₀, he₀, hf₀, hact₀⟩ := Example.called_mem hcalled
  obtain ⟨e₁, he₁, ⟨m, hact₁⟩, hfree, d, hd, hstate⟩ := Example.foundBy_mem hfound
  simp only [Bool.and_eq_true, decide_eq_true_eq] at hstate
  have hmem : ∀ {e' : DEntry} {m : Method}, e' ∈ cfg.w.log → e'.act = .invoke m → e' ∈ older := by
    intro e' m he' hinvoke
    rw [hlog] at he'
    rcases List.mem_cons.1 he' with rfl | he'
    · rw [hact] at hinvoke
      cases hinvoke
    · exact he'
  obtain ⟨-, hdelivered⟩ := @deliver_once id (fresh [] none) cfg [] older e hcfg hlog
  have howes := hdelivered _ hact e₀ (hmem he₀ hact₀) (hf₀.trans hf.symm) _ hact₀ e₁ (hmem he₁ hact₁) hfree
  exact ⟨cfg, hcfg, e, older, hlog, howes.enqueued d _ hd hstate.1 hstate.2⟩

/-- A call of `ensure_comment` that the lease refuses raises `Stop`, not `Hold`. -/
theorem conflict_is_no_hold :
    ¬ ∀ cfg : DConfig, (desk id).Reachable (fresh [] none) cfg → ∀ e ∈ cfg.w.log, ∀ e₀ ∈ cfg.w.log,
      e₀.frame = e.frame → (∃ issue operationId body, e₀.act = .invoke (.ensure issue operationId body)) →
        ∀ x, e.act = .ret (.error x) → ∃ reason, x = .hold reason := by
  intro hall
  obtain ⟨cfg, hcfg, ht⟩ := Machine.Reachable.of_run (desk id) (fresh [] none) Example.overlapping
    (fun c => decide (Example.returned c.w.log = some (1, .error .conflict) ∧
      Example.called 1 (.ensure Example.issue Example.operationId Example.content) c.w.log = true)) (by decide +kernel)
  obtain ⟨hret, hcalled⟩ := of_decide_eq_true ht
  obtain ⟨e, older, hlog, hf, hact⟩ := Example.returned_split hret
  obtain ⟨e₀, he₀, hf₀, hact₀⟩ := Example.called_mem hcalled
  have he : e ∈ cfg.w.log := hlog ▸ List.mem_cons_self
  obtain ⟨reason, hx⟩ := hall cfg hcfg e he e₀ he₀ (hf₀.trans hf.symm) ⟨_, _, _, hact₀⟩ _ hact
  cases hx

end Communication

end Arhugula
