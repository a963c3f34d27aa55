import Arhugula.Reentrant.Keeps
import Arhugula.Spec.Communication

/-!
# What the log says of comments and pointers

`Lawful` is what each entry of the log owes: a comment is stored once for an operation, the queue is called
again where it refused, a call that finds a delivery under way gives its receipt or holds. `DInv` relates
the log to the store and the records; `Within` is the assertion that stands while the lease is held.
-/

namespace Arhugula

namespace Communication

open Reentrant Durable Strings

/-! ## Marker lines -/

theorem isBreak_newline : isBreak '\n' = true := by decide

/-- A line without breaks is one line. -/
theorem splitFrom_line {t : Text} (ht : ∀ c ∈ t, isBreak c = false) (line : Text) :
    splitFrom line t = if line.reverse ++ t = [] then [] else [line.reverse ++ t] := by
  induction t generalizing line with
  | nil =>
    simp only [splitFrom, List.append_nil, List.reverse_eq_nil_iff]
  | cons c t ih =>
    have hc : isBreak c = false := ht c List.mem_cons_self
    have hcr : c ≠ '\r' := by
      rintro rfl
      exact absurd hc (by decide)
    have hstep : splitFrom line (c :: t) = splitFrom (c :: line) t := by
      rw [splitFrom.eq_def]
      split
      · rename_i heq
        cases heq
      · rename_i heq
        exact absurd (List.cons.inj heq).1 hcr
      · rename_i heq
        obtain ⟨rfl, rfl⟩ := List.cons.inj heq
        rw [if_neg (by simp [hc])]
    rw [hstep, ih (fun x hx => ht x (List.mem_cons_of_mem c hx))]
    simp

/-- **The last line of a text is one of its lines**, where it has no breaks. -/
theorem mem_splitFrom {t : Text} (ht : ∀ c ∈ t, isBreak c = false) (hne : t ≠ []) (n : ℕ) :
    ∀ before line : Text, before.length ≤ n → t ∈ splitFrom line (before ++ '\n' :: t) := by
  have hlast : t ∈ splitFrom [] t := by
    rw [splitFrom_line ht]
    simp [hne]
  induction n with
  | zero =>
    intro before line hn
    have hb : before = [] := List.eq_nil_of_length_eq_zero (by omega)
    subst hb
    rw [List.nil_append, splitFrom.eq_def]
    simp [isBreak_newline, hlast]
  | succ n ih =>
    intro before line hn
    cases before with
    | nil => exact ih [] line (Nat.zero_le n)
    | cons c b =>
      have hb : b.length ≤ n := by simpa using hn
      rw [List.cons_append, splitFrom.eq_def]
      split
      · rename_i heq
        cases heq
      · rename_i x heq
        -- a carriage return, and the newline after it
        obtain ⟨rfl, hrest⟩ := List.cons.inj heq
        cases b with
        | nil =>
          have hx : t = x := (List.cons.inj hrest).2
          rw [← hx]
          exact List.mem_cons_of_mem _ hlast
        | cons c' b' =>
          have hx : b' ++ '\n' :: t = x := (List.cons.inj hrest).2
          rw [← hx]
          refine List.mem_cons_of_mem _ (ih b' [] ?_)
          simp only [List.length_cons] at hb
          omega
      · rename_i heq
        obtain ⟨rfl, rfl⟩ := List.cons.inj heq
        split
        · exact List.mem_cons_of_mem _ (ih b [] hb)
        · exact ih b (c :: line) hb

/-- An operation id has no breaks. -/
theorem operationId_line {operationId : Text} (h : isOperationId operationId = true) :
    ∀ c ∈ operationId, isBreak c = false ∧ c ≠ '\n' := by
  have hchar : ∀ c : Char, (c.isAlphanum || c = '.' || c = '_' || c = '-') = true →
      isBreak c = false ∧ c ≠ '\n' := by
    intro c hc
    have hb : isBreak c = false := by
      rw [Bool.eq_false_iff]
      intro hbreak
      simp only [isBreak, Bool.or_eq_true, Bool.and_eq_true, decide_eq_true_eq, List.contains_iff_mem, List.mem_cons,
        List.not_mem_nil, or_false] at hbreak
      delta Char.isAlphanum Char.isAlpha Char.isUpper Char.isLower Char.isDigit at hc
      simp only [Bool.or_eq_true, Bool.and_eq_true, decide_eq_true_eq, UInt32.le_iff_toNat_le] at hc
      rcases hc with ((hc | rfl) | rfl) | rfl
      · have hval : c.val.toNat = c.toNat := rfl
        have hends : 'A'.val.toNat = 65 ∧ 'Z'.val.toNat = 90 ∧ 'a'.val.toNat = 97 ∧ 'z'.val.toNat = 122 ∧
            '0'.val.toNat = 48 ∧ '9'.val.toNat = 57 := by decide
        simp only [hval, hends] at hc
        omega
      all_goals exact absurd hbreak (by decide)
    refine ⟨hb, ?_⟩
    rintro rfl
    exact absurd hb (by decide)
  cases operationId with
  | nil => exact fun c hc => absurd hc (by simp)
  | cons a t =>
    simp only [isOperationId, Bool.and_eq_true, List.all_eq_true] at h
    obtain ⟨⟨⟨ha, -⟩, -⟩, ht⟩ := h
    intro c hc
    rcases List.mem_cons.1 hc with rfl | hc
    · exact hchar c (by simp [ha])
    · exact hchar c (ht c hc)

theorem label_line : ∀ c ∈ label, isBreak c = false ∧ c ≠ '\n' := by
  have hall : (label.all fun c => !isBreak c && c != '\n') = true := by decide +kernel
  simpa using hall

theorem label_ne : label ≠ [] := by decide +kernel

theorem marker_line {operationId : Text} (h : isOperationId operationId = true) :
    ∀ c ∈ label ++ operationId, isBreak c = false ∧ c ≠ '\n' := by
  intro c hc
  rcases List.mem_append.1 hc with hc | hc
  · exact label_line c hc
  · exact operationId_line h c hc

/-- **A marked body carries its marker.** -/
theorem marker_mem {body operationId : Text} (h : isOperationId operationId = true) :
    label ++ operationId ∈ splitlines (text body operationId) := by
  have hne : label ++ operationId ≠ [] := List.append_ne_nil_of_left_ne_nil label_ne operationId
  have hsplit : text body operationId = (body ++ ['\n']) ++ '\n' :: (label ++ operationId) := by
    simp only [text, List.append_assoc, List.singleton_append]
  rw [splitlines, hsplit]
  exact mem_splitFrom (fun c hc => (marker_line h c hc).1) hne _ _ [] le_rfl

/-- The last line of a marked body is its marker. -/
theorem lastLine_text {body operationId : Text} (h : isOperationId operationId = true) :
    lastLine (text body operationId) = label ++ operationId := by
  have hline : ∀ c ∈ (label ++ operationId).reverse, decide (c ≠ '\n') = true := by
    intro c hc
    exact decide_eq_true (marker_line h c (List.mem_reverse.1 hc)).2
  have hsplit : (text body operationId).reverse =
      (label ++ operationId).reverse ++ '\n' :: ('\n' :: body.reverse) := by
    simp only [text, List.reverse_append, List.reverse_cons, List.append_assoc, List.cons_append, List.nil_append]
  rw [lastLine, hsplit, List.takeWhile_append_of_pos hline, List.takeWhile_cons_of_neg (by simp), List.append_nil,
    List.reverse_reverse]

/-! ## What the log says -/

/-- A world of the desk. -/
abbrev DWorld := World Desk Op Answer Exc Method Value

/-- A log entry of the desk. -/
abbrev DEntry := Entry Desk Op Answer Exc Method Value

/-- A configuration of the desk. -/
abbrev DConfig := Config Desk Op Answer Exc Method Value

/-- What an activation of the desk does. -/
abbrev DAct := Act Op Answer Exc Method Value

/-- The answer stored a comment. -/
def Answer.stores : Answer → Bool
  | .stored .. => true
  | _ => false

/-- The comment of an operation is stored. -/
def Posts (issue operationId : Text) (e : DEntry) : Prop :=
  isOperationId operationId = true ∧ ∃ body a, e.act = .reply (.comment issue (text body operationId)) a ∧ a.stores = true

/-- The queue is called for an operation. -/
def Queues (operationId : Text) (e : DEntry) : Prop := ∃ thread t, e.act = .call (.queue operationId thread t)

/-- **Each call of the queue for an operation raised `QueueFailed`.** -/
def Clear (operationId : Text) (log : List DEntry) : Prop :=
  ∀ e ∈ log, Queues operationId e → ∃ e' ∈ log, e'.frame = e.frame ∧
    ∃ thread t f, e'.act = .reply (.queue operationId thread t) (.raised (.refused f))

/-- Nothing may be queued for the operation. -/
def Pending : Slot Delivery → Prop
  | .absent => True
  | .holding d => d.state = .commentVerified
  | .uncertain => False

/-- **What becomes of a record** that was left: where it may have been queued it stays. -/
inductive Later : Slot Delivery → Slot Delivery → Prop
  | same (s : Slot Delivery) : Later s s
  | begun (s : Slot Delivery) : Later .absent s
  | moved {d d' : Delivery} (hd : d.state = .commentVerified) (hi : d'.intent = d.intent) :
      Later (.holding d) (.holding d')
  | lost {d : Delivery} (hd : d.state = .commentVerified) : Later (.holding d) .uncertain

theorem Later.trans {s s' s'' : Slot Delivery} (h : Later s s') (h' : Later s' s'') : Later s s'' := by
  induction h with
  | same => exact h'
  | begun => exact .begun s''
  | lost hd =>
    cases h' with
    | same => exact .lost hd
  | moved hd hi =>
    cases h' with
    | same => exact .moved hd hi
    | moved _ hi' => exact .moved hd (hi'.trans hi)
    | lost _ => exact .lost hd

/-- The activation calls the queue for an operation. -/
def Queued (i : ℕ) (operationId : Text) (log : List DEntry) : Prop :=
  ∃ e ∈ log, e.frame = i ∧ Queues operationId e

/-- The activation saw the record: the comment and the routing were as claimed. -/
def Saw (i : ℕ) (operationId : Text) (log : List DEntry) : Prop :=
  ∃ e ∈ log, e.frame = i ∧ e.act = .reply (.record operationId) .done

/-- **The call holds**: it queues nothing and gives no receipt; where it saw the record it raises `Hold`. -/
structure HoldsBack (i : ℕ) (operationId : Text) (log : List DEntry) (r : Except Exc Value) : Prop where
  queued : ¬ Queued i operationId log
  receipt : ∀ v, r ≠ .ok v
  hold : Saw i operationId log → ∃ reason, r = .error (.hold reason)

/-- **The call repeats a receipt**: it queues nothing and gives no other; where it saw the record it gives it. -/
structure Repeats (i : ℕ) (p : Pointer) (messageId : Text) (log : List DEntry) (r : Except Exc Value) : Prop where
  queued : ¬ Queued i p.operationId log
  receipt : ∀ v, r = .ok v → v = .receipt ⟨p.comment, p.recipient.sessionId, messageId, p.text⟩
  again : Saw i p.operationId log → r = .ok (.receipt ⟨p.comment, p.recipient.sessionId, messageId, p.text⟩)

/-- **What a delivery owes to a record that was left before it.** -/
structure OwesReceipt (i : ℕ) (p : Pointer) (s : Slot Delivery) (log : List DEntry) (r : Except Exc Value) : Prop where
  other : ∀ d, s = .holding d → d.intent ≠ p.intent → HoldsBack i p.operationId log r
  enqueued : ∀ d messageId, s = .holding d → d.intent = p.intent → d.state = .enqueued messageId →
    Repeats i p messageId log r
  intended : ∀ d, s = .holding d → d.state = .queueIntended ∨ d.state = .deliveryUncertain →
    HoldsBack i p.operationId log r
  uncertain : s = .uncertain → HoldsBack i p.operationId log r

/-- What a publication owes: the one stored comment, or a `Hold`. A lease that is taken, a lock file that
cannot be had and an interruption pass. -/
def OwesComment (sha256 : Text → Text) (i : ℕ) (issue operationId body : Text) (comments : List Comment)
    (log : List DEntry) : Except Exc Value → Prop
  | .ok v => ∃ c failures, v = .comment ⟨issue, c.id, sha256 (text body operationId), operationId, failures⟩ ∧
      c.body = text body operationId ∧ carried comments issue (label ++ operationId) = [c]
  | .error x => (∃ reason, x = .hold reason) ∨
      (x = .conflict ∧ ∃ e ∈ log, e.frame = i ∧ e.act = .reply .lock .done ∧ e.st.held = true) ∨
      (∃ f, x = .fault f ∧ ∃ e ∈ log, e.frame = i ∧ e.act = .reply .lock (.raised f)) ∨
      (x = .fault .interrupt ∧ ∃ e ∈ log, e.frame = i ∧ ∃ op a, e.act = .reply op a ∧ a.fault = some .interrupt)

/-- The routing is unpaused, and routes the recipient to its session, which has a queue. -/
def IsRouted (recipient : Recipient) (control : Option Control) : Prop :=
  ∃ c, control = some c ∧ c.repairPaused = false ∧ ∃ row, c.rows recipient.name = [row] ∧
    row.sessionId = some recipient.sessionId ∧ row.kind = some "codex".toList

/-- **The call that queues checked its comment and its routing.** -/
def Checked (sha256 : Text → Text) (i : ℕ) (operationId thread t : Text) (log : List DEntry) : Prop :=
  ∃ p, (∃ e ∈ log, e.frame = i ∧ e.act = .invoke (.deliver p)) ∧
    p.operationId = operationId ∧ p.recipient.sessionId = thread ∧ p.text = t ∧
    (∃ e ∈ log, e.frame = i ∧ e.act = .reply .export .done ∧ isStored sha256 p.comment e.st.comments = true) ∧
    ∃ e ∈ log, e.frame = i ∧ e.act = .reply .routing .done ∧ IsRouted p.recipient e.st.control

/-- **What an entry owes.** -/
structure Lawful (sha256 : Text → Text) (e : DEntry) (older : List DEntry) : Prop where
  posted : ∀ issue operationId, Posts issue operationId e → ∀ e' ∈ older, ¬ Posts issue operationId e'
  queued : ∀ operationId thread t, e.act = .call (.queue operationId thread t) →
    Clear operationId older ∧ Checked sha256 e.frame operationId thread t older
  published : ∀ r, e.act = .ret r → ∀ e₀ ∈ older, e₀.frame = e.frame → ∀ issue operationId body,
    e₀.act = .invoke (.ensure issue operationId body) →
      OwesComment sha256 e.frame issue operationId body e.st.comments older r
  delivered : ∀ r, e.act = .ret r → ∀ e₀ ∈ older, e₀.frame = e.frame → ∀ p, e₀.act = .invoke (.deliver p) →
    ∀ e₁ ∈ older, e₁.st.held = false → OwesReceipt e.frame p (e₁.st.records p.operationId) older r

/-! ## The invariant -/

/-- **The invariant**: what was stored is in the store, a record from which one may queue has only refusals
behind it, and a record that was left became what it may become. -/
structure DInv (sha256 : Text → Text) (w : DWorld) : Prop where
  lawful : Throughout (Lawful sha256) w.log
  posted : ∀ e ∈ w.log, ∀ issue t a, e.act = .reply (.comment issue t) a → a.stores = true →
    ∃ c ∈ w.st.comments, c.issueId = issue ∧ c.body = t
  clear : ∀ operationId, Pending (w.st.records operationId) → Clear operationId w.log
  stable : ∀ e ∈ w.log, e.st.held = false → ∀ operationId,
    Later (e.st.records operationId) (w.st.records operationId)

/-- An entry under the lease that stores no comment and does not call the queue. -/
structure Quiet (e : DEntry) : Prop where
  held : e.st.held = true
  stores : ∀ issue t a, e.act = .reply (.comment issue t) a → a.stores = false
  queues : ∀ operationId, ¬ Queues operationId e

/-- **What a complete nested call does**: the lease is as before, and while it is held nothing is stored,
queued or recorded. -/
structure Beside (w w' : DWorld) : Prop where
  held : w'.st.held = w.st.held
  records : w.st.held = true → w'.st.records = w.st.records
  quiet : w.st.held = true → ∃ l, w'.log = l ++ w.log ∧ ∀ e ∈ l, Quiet e

theorem Beside.refl (w : DWorld) : Beside w w := ⟨rfl, fun _ => rfl, fun _ => ⟨[], rfl, by simp⟩⟩

theorem Beside.trans {a b c : DWorld} (h : Beside a b) (h' : Beside b c) : Beside a c := by
  refine ⟨h'.held.trans h.held, fun ha => (h'.records (h.held.trans ha)).trans (h.records ha), fun ha => ?_⟩
  obtain ⟨l, hl, hq⟩ := h.quiet ha
  obtain ⟨l', hl', hq'⟩ := h'.quiet (h.held.trans ha)
  refine ⟨l' ++ l, by rw [hl', hl, List.append_assoc], fun e he => ?_⟩
  rcases List.mem_append.1 he with he | he
  · exact hq' e he
  · exact hq e he

/-- The contract of every call. -/
def deskContract (sha256 : Text → Text) : Contract (desk sha256) where
  Inv := DInv sha256
  Rel _ := Beside
  refl _ w := .refl w
  trans h h' := h.trans h'

variable {sha256 : Text → Text} {w w' : DWorld} {log l : List DEntry} {e : DEntry} {i : ℕ} {x : DAct}
  {ctx : List (ℕ × Op)} {op : Op} {a : Answer}

/-- An act that owes nothing, and that nothing reads. -/
def Plain : DAct → Prop
  | .ret _ => False
  | .call (.queue ..) => False
  | .reply (.comment ..) a => a.stores = false
  | _ => True

theorem Plain.posts (hx : Plain x) {issue t : Text} (h : x = .reply (.comment issue t) a) :
    a.stores = false := by
  subst h
  exact hx

theorem Plain.queues (hx : Plain x) {operationId : Text} {s : Desk} : ¬ Queues operationId ⟨i, x, s⟩ := by
  rintro ⟨thread, t, rfl⟩
  exact hx

theorem Plain.lawful (hx : Plain x) (s : Desk) : Lawful sha256 ⟨i, x, s⟩ log where
  posted issue operationId h := by
    obtain ⟨-, body, a, hact, hs⟩ := h
    rw [hx.posts hact] at hs
    cases hs
  queued operationId thread t h := absurd ⟨thread, t, h⟩ hx.queues
  published r h := by
    cases h
    exact hx.elim
  delivered r h := by
    cases h
    exact hx.elim

theorem Clear.append {operationId : Text} (h : Clear operationId log) (hl : ∀ e ∈ l, ¬ Queues operationId e) :
    Clear operationId (l ++ log) := by
  intro e he hq
  rcases List.mem_append.1 he with he | he
  · exact absurd hq (hl e he)
  · obtain ⟨e', he', hr⟩ := h e he hq
    exact ⟨e', List.mem_append_right l he', hr⟩

/-- **An entry that changes nothing.** -/
theorem DInv.push (h : DInv sha256 w) (ho : Lawful sha256 ⟨i, x, w.st⟩ w.log)
    (hs : ∀ issue t a, x = .reply (.comment issue t) a → a.stores = false)
    (hq : ∀ operationId, Queues operationId ⟨i, x, w.st⟩ → ¬ Pending (w.st.records operationId)) :
    DInv sha256 (w.push i x) where
  lawful := ⟨ho, h.lawful⟩
  posted := by
    intro e he issue t a hact hst
    rcases List.mem_cons.1 he with rfl | he
    · rw [hs issue t a hact] at hst
      cases hst
    · exact h.posted e he issue t a hact hst
  clear := by
    intro operationId hp
    refine (h.clear operationId hp).append (l := [⟨i, x, w.st⟩]) fun e he hqe => ?_
    rw [List.mem_singleton.1 he] at hqe
    exact hq operationId hqe hp
  stable := by
    intro e he hf operationId
    rcases List.mem_cons.1 he with rfl | he
    · exact .same _
    · exact h.stable e he hf operationId

theorem DInv.plain (h : DInv sha256 w) (hx : Plain x) : DInv sha256 (w.push i x) :=
  h.push (hx.lawful w.st) (fun _ _ _ hact => hx.posts hact) fun _ hq => absurd hq hx.queues

/-- **A change of records**: the new ones are later than those that were left. -/
theorem DInv.put (h : DInv sha256 w) {s : Desk} (hc : ∀ c ∈ w.st.comments, c ∈ s.comments)
    (hclear : ∀ operationId, Pending (s.records operationId) → Clear operationId w.log)
    (hstable : ∀ e ∈ w.log, e.st.held = false → ∀ operationId, Later (e.st.records operationId) (s.records operationId)) :
    DInv sha256 (w.put s) where
  lawful := h.lawful
  posted := by
    intro e he issue t a hact hst
    obtain ⟨c, hcm, hcc⟩ := h.posted e he issue t a hact hst
    exact ⟨c, hc c hcm, hcc⟩
  clear := hclear
  stable := hstable

end Communication

end Arhugula
