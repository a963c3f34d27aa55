import Arhugula.Proof.SessionSafety
import Arhugula.Spec.Conversation

/-!
# What a conversation owns and what it is bound by

`Owning` is what is known of the leases, `Bounds` of the history and the request, `Jobs` of the
jobs, whatever is under way. `Rest` is what is known besides where nothing is under way.
-/

namespace Arhugula

namespace Conversation

open Reentrant Session

variable {latch : Bool} {o o' : SessionOwner} {l : Option ℕ} {os : List ℕ} {ds : List Deed} {g : ℕ}
  {log : List DEntry} {e : DEntry} {i : ℕ}

/-! ## Leases -/

/-- **The deeds are disciplined**: what is canceled or released was begun before by the conversation
itself, and not released since. -/
def Disciplined : List Deed → Prop
  | [] => True
  | .began g :: ds => .began g ∉ ds ∧ Disciplined ds
  | .canceled g :: ds => .began g ∈ ds ∧ (∀ c, .released g c ∉ ds) ∧ Disciplined ds
  | .released g _ :: ds => .began g ∈ ds ∧ (∀ c, .released g c ∉ ds) ∧ Disciplined ds

/-- What was released was begun. -/
theorem Disciplined.began {c : Bool} (h : Disciplined ds) (hr : .released g c ∈ ds) : .began g ∈ ds := by
  induction ds with
  | nil => cases hr
  | cons d ds ih =>
    cases d with
    | began m =>
      rcases List.mem_cons.1 hr with hr | hr
      · cases hr
      · exact List.mem_cons_of_mem _ (ih h.2 hr)
    | canceled m =>
      rcases List.mem_cons.1 hr with hr | hr
      · cases hr
      · exact List.mem_cons_of_mem _ (ih h.2.2 hr)
    | released m c' =>
      rcases List.mem_cons.1 hr with hr | hr
      · cases hr
        exact List.mem_cons_of_mem _ h.1
      · exact List.mem_cons_of_mem _ (ih h.2.2 hr)

/-- What is known of the owner, the lease `l`, the generations `os` of other clients, and the
deeds. With `latch` other clients may have faulted the lease. -/
structure Owning (latch : Bool) (o : SessionOwner) (l : Option ℕ) (os : List ℕ) (ds : List Deed) : Prop where
  disciplined : Disciplined ds
  idle : o.state = .idle → o.owner = none
  begun : ∀ g, .began g ∈ ds → 0 < g ∧ g ≤ o.generation ∧ g ∉ os
  others : ∀ g ∈ os, g ≤ o.generation
  lease : ∀ g, l = some g → .began g ∈ ds ∧ (∀ c, .released g c ∉ ds) ∧ o.owner = some g ∧
    (latch = false → o.state ≠ .faulted)
  returned : ∀ g, .began g ∈ ds → l = some g ∨ (∃ c, .released g c ∈ ds) ∨
    (latch = true ∧ o.state = .faulted)

theorem Owning.new (sessionId : String) : Owning latch (.new sessionId) none [] [] :=
  ⟨trivial, fun _ => rfl, fun _ hg => (by cases hg), fun _ hg => (by cases hg), fun _ hg => (by cases hg),
    fun _ hg => (by cases hg)⟩

/-- Who holds a lease is not idle. -/
theorem Owning.not_idle (h : Owning latch o (some g) os ds) : o.state ≠ .idle := by
  intro hidle
  have howner := (h.lease g rfl).2.2.1
  rw [h.idle hidle] at howner
  cases howner

theorem Owning.invalidate (h : Owning latch o l os ds) : Owning latch o.invalidate l os ds := by
  have hidle : o.invalidate.state = .idle → o.state = .idle := by
    intro hstate
    simp only [SessionOwner.invalidate] at hstate
    split at hstate
    · cases hstate
    · exact hstate
  have hfault : o.invalidate.state = .faulted ↔ o.state = .faulted := by
    simp only [SessionOwner.invalidate]
    split
    · rename_i howned
      rw [howned]
      simp
    · rfl
  refine ⟨h.disciplined, fun hstate => h.idle (hidle hstate), fun g hg => ?_, fun g hg => ?_,
    fun g hg => ?_, fun g hg => ?_⟩
  · obtain ⟨hpos, hle, hothers⟩ := h.begun g hg
    exact ⟨hpos, Nat.le_succ_of_le hle, hothers⟩
  · exact Nat.le_succ_of_le (h.others g hg)
  · obtain ⟨hbegan, hreleased, howner, hfaulted⟩ := h.lease g hg
    exact ⟨hbegan, hreleased, howner, fun hl => mt hfault.1 (hfaulted hl)⟩
  · rw [hfault]
    exact h.returned g hg

theorem Owning.cancel (h : Owning latch o l os ds) {generation : Option (Option ℤ)}
    (hc : o.cancel generation = .ok (g, o')) : Owning latch o' l os ds := by
  rcases cancel_spec hc with ⟨rfl, -⟩ | ⟨rfl, -⟩
  · exact h.invalidate
  · exact h

/-- A generation that is begun is new, and there was no lease. -/
theorem Owning.begin (h : Owning latch o l os ds) {mode : Option String} (hb : o.begin mode = .ok (g, o')) :
    l = none ∧ 0 < g ∧ o.generation < g ∧ o'.generation = g ∧ o'.owner = some g ∧ o'.state = .owned ∧
      o.state = .idle := by
  obtain ⟨hidle, rfl, rfl⟩ := begin_spec hb
  refine ⟨?_, Nat.succ_pos _, Nat.lt_succ_self _, rfl, rfl, rfl, hidle⟩
  cases l with
  | none => rfl
  | some g => exact absurd hidle h.not_idle

/-- Another client begins. -/
theorem Owning.begin_other (h : Owning latch o l os ds) {mode : Option String}
    (hb : o.begin mode = .ok (g, o')) : Owning latch o' l (g :: os) ds := by
  obtain ⟨rfl, hpos, hlt, hgen, howner, hstate, hidle⟩ := h.begin hb
  refine ⟨h.disciplined, fun hi => ?_, fun k hk => ?_, fun k hk => ?_, fun k hk => (by cases hk), fun k hk => ?_⟩
  · rw [hstate] at hi
    cases hi
  · obtain ⟨hkpos, hle, hothers⟩ := h.begun k hk
    refine ⟨hkpos, by omega, fun hmem => ?_⟩
    rcases List.mem_cons.1 hmem with rfl | hmem
    · omega
    · exact hothers hmem
  · rcases List.mem_cons.1 hk with rfl | hk
    · omega
    · have hle := h.others k hk
      omega
  · rcases h.returned k hk with hl | hr | ⟨-, hfault⟩
    · exact .inl hl
    · exact .inr (.inl hr)
    · rw [hidle] at hfault
      cases hfault

/-- The conversation begins. -/
theorem Owning.borrow (h : Owning latch o l os ds) {mode : Option String} (hb : o.begin mode = .ok (g, o')) :
    Owning latch o' (some g) os (.began g :: ds) := by
  obtain ⟨rfl, hpos, hlt, hgen, howner, hstate, hidle⟩ := h.begin hb
  have hnew : .began g ∉ ds := fun hk => by
    have hle := (h.begun g hk).2.1
    omega
  refine ⟨⟨hnew, h.disciplined⟩, fun hi => ?_, fun k hk => ?_, fun k hk => ?_, fun k hk => ?_, fun k hk => ?_⟩
  · rw [hstate] at hi
    cases hi
  · rcases List.mem_cons.1 hk with hk | hk
    · cases hk
      exact ⟨hpos, hgen.ge, fun hmem => absurd (h.others g hmem) (by omega)⟩
    · obtain ⟨hkpos, hle, hothers⟩ := h.begun k hk
      exact ⟨hkpos, by omega, hothers⟩
  · have hle := h.others k hk
    omega
  · cases hk
    refine ⟨List.mem_cons_self, fun c hc => ?_, howner, fun _ => by rw [hstate]; simp⟩
    rcases List.mem_cons.1 hc with hc | hc
    · cases hc
    · exact hnew (h.disciplined.began hc)
  · rcases List.mem_cons.1 hk with hk | hk
    · cases hk
      exact .inl rfl
    · rcases h.returned k hk with hl | ⟨c, hr⟩ | ⟨-, hfault⟩
      · cases hl
      · exact .inr (.inl ⟨c, List.mem_cons_of_mem _ hr⟩)
      · rw [hidle] at hfault
        cases hfault

/-- The conversation cancels its lease. -/
theorem Owning.strike (h : Owning latch o (some g) os ds) {generation : Option (Option ℤ)} {n : ℕ}
    (hc : o.cancel generation = .ok (n, o')) : Owning latch o' (some g) os (.canceled g :: ds) := by
  have h' := h.cancel hc
  obtain ⟨hbegan, hreleased, -⟩ := h.lease g rfl
  refine ⟨⟨hbegan, hreleased, h.disciplined⟩, h'.idle, fun k hk => ?_, h'.others, fun k hk => ?_, fun k hk => ?_⟩
  · exact h'.begun k ((List.mem_cons.1 hk).resolve_left (by simp))
  · obtain ⟨hb, hr, hrest⟩ := h'.lease k hk
    refine ⟨List.mem_cons_of_mem _ hb, fun c hc => ?_, hrest⟩
    exact hr c ((List.mem_cons.1 hc).resolve_left (by simp))
  · rcases h'.returned k ((List.mem_cons.1 hk).resolve_left (by simp)) with hl | ⟨c, hr⟩ | hf
    · exact .inl hl
    · exact .inr (.inl ⟨c, List.mem_cons_of_mem _ hr⟩)
    · exact .inr (.inr hf)

/-- A cancellation of a lease does not raise. -/
theorem Owning.cancel_ok (h : Owning latch o (some g) os ds) :
    ∃ n o', o.cancel (some (some g)) = .ok (n, o') := by
  cases hc : o.cancel (some (some g)) with
  | ok r => exact ⟨r.1, r.2, rfl⟩
  | error x => exact absurd rfl ((cancel_raised hc).2 g (h.begun g (h.lease g rfl).1).1)

/-- The conversation gives back its lease. -/
theorem Owning.giveBack (h : Owning latch o (some g) os ds) {c : Bool}
    (hr : o.release (some g) (some c) = .ok o') :
    Owning latch o' none os (.released g c :: ds) ∧ (c = false → o'.state = .faulted) := by
  obtain ⟨howner, hfault, rfl⟩ := release_nat hr
  obtain ⟨hbegan, hreleased, -⟩ := h.lease g rfl
  have hreturned : ∀ k, .began k ∈ Deed.released g c :: ds → ∃ c', .released k c' ∈ Deed.released g c :: ds := by
    intro k hk
    rcases h.returned k ((List.mem_cons.1 hk).resolve_left (by simp)) with hl | ⟨c', hc'⟩ | ⟨-, hf⟩
    · cases hl
      exact ⟨c, List.mem_cons_self⟩
    · exact ⟨c', List.mem_cons_of_mem _ hc'⟩
    · exact absurd hf hfault
  have hdisciplined : Disciplined (.released g c :: ds) := ⟨hbegan, hreleased, h.disciplined⟩
  have hbegun : ∀ k, .began k ∈ Deed.released g c :: ds → 0 < k ∧ k ≤ o.generation ∧ k ∉ os :=
    fun k hk => h.begun k ((List.mem_cons.1 hk).resolve_left (by simp))
  cases c with
  | true =>
    exact ⟨⟨hdisciplined, fun _ => rfl, hbegun, h.others, fun k hk => (by cases hk),
      fun k hk => .inr (.inl (hreturned k hk))⟩, fun hc => (by cases hc)⟩
  | false =>
    exact ⟨⟨hdisciplined, fun hi => (by cases hi), hbegun, h.others, fun k hk => (by cases hk),
      fun k hk => .inr (.inl (hreturned k hk))⟩, fun _ => rfl⟩

/-- A release of a lease raises only on a fault of another client. -/
theorem Owning.release_raised (h : Owning latch o (some g) os ds) {c : Bool} {x : Session.Error}
    (hr : o.release (some g) (some c) = .error x) : x = .faulted ∧ latch = true ∧ o.state = .faulted := by
  obtain ⟨hbegan, -, howner, hfaulted⟩ := h.lease g rfl
  have hpos := (h.begun g hbegan).1
  have hg : positive (some (g : ℤ)) = some g := by
    unfold positive
    dsimp only
    rw [if_pos (by omega), Int.toNat_natCast]
  unfold SessionOwner.release at hr
  simp only [hg] at hr
  split_ifs at hr with hf hne hc
  · cases hr
    refine ⟨rfl, ?_, hf⟩
    by_contra hl
    exact hfaulted (by simpa using hl) hf
  · exact absurd howner hne

/-- Without a fault a lease is released. -/
theorem Owning.release_faulted (h : Owning latch o (some g) os ds) {c : Bool} (hf : o.state = .faulted) :
    o.release (some g) (some c) = .error .faulted := by
  have hpos := (h.begun g (h.lease g rfl).1).1
  have hg : positive (some (g : ℤ)) = some g := by
    unfold positive
    dsimp only
    rw [if_pos (by omega), Int.toNat_natCast]
  unfold SessionOwner.release
  simp only [hg]
  rw [if_pos hf]

/-- Another client releases what it began. -/
theorem Owning.release_other (h : Owning latch o l os ds) {c : Bool} (hg : g ∈ os)
    (hr : o.release (some g) (some c) = .ok o') : Owning latch o' l os ds := by
  obtain ⟨howner, hfault, rfl⟩ := release_nat hr
  have hnone : ∀ k, l ≠ some k := by
    intro k hk
    obtain ⟨hbegan, -, hown, -⟩ := h.lease k hk
    rw [howner] at hown
    cases hown
    exact (h.begun g hbegan).2.2 hg
  have hreturned : ∀ k, .began k ∈ ds → ∃ c, .released k c ∈ ds := by
    intro k hk
    rcases h.returned k hk with hl | hr | ⟨-, hf⟩
    · exact absurd hl (hnone k)
    · exact hr
    · exact absurd hf hfault
  split
  · exact ⟨h.disciplined, fun _ => rfl, h.begun, h.others, fun k hk => absurd hk (hnone k),
      fun k hk => .inr (.inl (hreturned k hk))⟩
  · exact ⟨h.disciplined, fun hi => (by cases hi), h.begun, h.others, fun k hk => absurd hk (hnone k),
      fun k hk => .inr (.inl (hreturned k hk))⟩

/-- A borrower faults a generation. -/
theorem Owning.fault (h : Owning true o l os ds) (hr : o.release (some g) (some false) = .ok o') :
    Owning true o' l os ds := by
  obtain ⟨-, -, rfl⟩ := release_nat hr
  refine ⟨h.disciplined, fun hi => (by cases hi), h.begun, h.others, fun k hk => ?_,
    fun k hk => .inr (.inr ⟨rfl, rfl⟩)⟩
  obtain ⟨hbegan, hreleased, howner, -⟩ := h.lease k hk
  exact ⟨hbegan, hreleased, howner, fun hl => (by cases hl)⟩

/-! ## A fault stays -/

theorem begin_faulted {mode : Option String} (h : o.state = .faulted) : ∀ r, o.begin mode ≠ .ok r := by
  rintro ⟨g, o'⟩ hb
  obtain ⟨hidle, -⟩ := begin_spec hb
  rw [h] at hidle
  cases hidle

theorem cancel_faulted {generation : Option (Option ℤ)} (h : o.state = .faulted)
    (hc : o.cancel generation = .ok (g, o')) : o'.state = .faulted := by
  rcases cancel_spec hc with ⟨rfl, -⟩ | ⟨rfl, -⟩
  · simp [SessionOwner.invalidate, h]
  · exact h

theorem release_faulted {generation : Option ℤ} {cleaned : Option Bool} (h : o.state = .faulted) :
    ∀ o', o.release generation cleaned ≠ .ok o' := by
  intro o' hr
  obtain ⟨-, -, -, -, -, hfault, -⟩ := release_spec hr
  exact hfault h

/-! ## The history and the request -/

/-- What bounds the history `h` and the request `r` of a session `sid` at turn `n`. -/
structure Bounds (s : Option Snapshot) (sid : Option String) (r : Option Request) (h : List Exchange)
    (n : ℕ) : Prop where
  empty : s = none → h = []
  limits : ∀ x, s = some x → x.valid = true ∧ ∃ p, x.policy = some p ∧ n ≤ p.limits.turns ∧
    contextSize x h ≤ p.limits.contextChars
  length : h.length ≤ n
  rising : h.Pairwise fun x y => x.token.turn < y.token.turn
  turns : ∀ x ∈ h, x.token.turn ≤ n
  session : ∀ x ∈ h, sid = some x.token.sessionId
  request : ∀ q, r = some q → q.valid = true ∧ q.token.turn = n ∧ h.length < n ∧
    (∀ x ∈ h, x.token.turn < n) ∧ sid = some q.token.sessionId ∧ ∃ x, s = some x ∧ x.context = q.context

theorem Bounds.clear {n : ℕ} : Bounds none none none [] n :=
  ⟨fun _ => rfl, fun _ hx => (by cases hx), Nat.zero_le _, List.Pairwise.nil, fun _ hx => (by cases hx),
    fun _ hx => (by cases hx), fun _ hq => (by cases hq)⟩

theorem Bounds.forget {s : Option Snapshot} {sid : Option String} {r : Option Request} {h : List Exchange}
    {n : ℕ} (hb : Bounds s sid r h n) : Bounds s sid none h n :=
  { hb with request := fun _ hq => by cases hq }

/-- **The history fits into a request.** -/
theorem Bounds.fits {s : Snapshot} {sid : Option String} {r : Option Request} {h : List Exchange} {n : ℕ}
    (hb : Bounds (some s) sid r h n) : h.length ≤ 64 := by
  obtain ⟨hvalid, p, hp, hn, -⟩ := hb.limits s rfl
  have hturns : p.limits.turns ≤ 64 := by
    simp only [Snapshot.valid, hp, Bool.and_eq_true, Option.all_some, ConversationPolicy.valid,
      Limits.valid, number, decide_eq_true_eq] at hvalid
    omega
  have hlength := hb.length
  omega

/-- One more turn. -/
theorem Bounds.spend {s : Snapshot} {p : ConversationPolicy} {sid : Option String} {h : List Exchange} {n : ℕ}
    (hb : Bounds (some s) sid none h n) (hp : s.policy = some p) (hn : n < p.limits.turns) :
    Bounds (some s) sid none h (n + 1) := by
  refine ⟨hb.empty, fun x hx => ?_, Nat.le_succ_of_le hb.length, hb.rising,
    fun x hx => Nat.le_succ_of_le (hb.turns x hx), hb.session, fun q hq => (by cases hq)⟩
  cases hx
  obtain ⟨hvalid, p', hp', -, hsize⟩ := hb.limits s rfl
  rw [hp] at hp'
  cases hp'
  exact ⟨hvalid, p, hp, hn, hsize⟩

/-- A request of the turn. -/
theorem Bounds.pose {s : Snapshot} {sid : String} {h : List Exchange} {n : ℕ} {q : Request}
    (hb : Bounds (some s) (some sid) none h n) (hq : q.valid = true) (hturn : q.token.turn = n)
    (hsid : q.token.sessionId = sid) (hcontext : q.context = s.context) (hlength : h.length < n)
    (hless : ∀ x ∈ h, x.token.turn < n) : Bounds (some s) (some sid) (some q) h n := by
  refine { hb with request := fun q' hq' => ?_ }
  cases hq'
  exact ⟨hq, hturn, hlength, hless, by rw [hsid], s, rfl, hcontext.symm⟩

/-- One more exchange, on the token that is pending. -/
theorem Bounds.publish {s : Snapshot} {p : ConversationPolicy} {sid : Option String} {q : Request}
    {h : List Exchange} {n : ℕ} {x : Exchange} (hb : Bounds (some s) sid (some q) h n) (hp : s.policy = some p)
    (hx : x.token = q.token)
    (hsize : contextSize s h + x.text.length + x.response.length ≤ p.limits.contextChars) :
    Bounds (some s) sid none (h ++ [x]) n := by
  obtain ⟨-, hturn, hlength, hless, hsid, -⟩ := hb.request q rfl
  refine ⟨fun hs => (by cases hs), fun y hy => ?_, ?_, ?_, fun y hy => ?_, fun y hy => ?_, fun _ hq => (by cases hq)⟩
  · cases hy
    obtain ⟨hvalid, p', hp', hn, -⟩ := hb.limits s rfl
    rw [hp] at hp'
    cases hp'
    refine ⟨hvalid, p, hp, hn, ?_⟩
    simp only [contextSize, historyChars, List.map_append, List.sum_append, List.map_cons, List.map_nil,
      List.sum_cons, List.sum_nil] at hsize ⊢
    omega
  · rw [List.length_append, List.length_singleton]
    omega
  · rw [List.pairwise_append]
    refine ⟨hb.rising, List.pairwise_singleton _ x, fun y hy z hz => ?_⟩
    rw [List.mem_singleton.1 hz, hx, hturn]
    exact hless y hy
  · rcases List.mem_append.1 hy with hy | hy
    · exact hb.turns y hy
    · rw [List.mem_singleton.1 hy, hx, hturn]
  · rcases List.mem_append.1 hy with hy | hy
    · exact hb.session y hy
    · rw [List.mem_singleton.1 hy, hx]
      exact hsid

/-! ## Jobs -/

/-- What an answer does to the jobs that are not cleaned: `none` stands for one that the factory
may have made when it raised, or gave `None`. -/
def loosen : Op → Answer → List (Option ℕ) → List (Option ℕ)
  | .jobs, .job j, jobs => some j :: jobs
  | .jobs, _, jobs => none :: jobs
  | .proven j, .true, jobs => jobs.filter fun k => k ≠ some j
  | _, _, jobs => jobs

/-- **The jobs that are not cleaned.** -/
def loose : List DEntry → List (Option ℕ)
  | [] => []
  | e :: log =>
    match e.act with
    | .reply op a => loosen op a (loose log)
    | _ => loose log

/-- The jobs that are not cleaned are known, or one is unknown. -/
def Jobs (log : List DEntry) (job : Option ℕ) (unknown : Bool) : Prop :=
  loose log = [] ∨ (∃ j, loose log = [some j] ∧ job = some j) ∨ unknown = true

theorem Jobs.nil {job : Option ℕ} (h : Jobs log job false) (hj : job = none) : loose log = [] := by
  rcases h with h | ⟨j, -, hjob⟩ | h
  · exact h
  · rw [hj] at hjob
    cases hjob
  · cases h

theorem Jobs.reply {job : Option ℕ} {unknown : Bool} (h : Jobs log job unknown) (op : Op) (a : Answer)
    (s : Desk) (hop : op = .jobs → unknown = true) : Jobs (⟨i, .reply op a, s⟩ :: log) job unknown := by
  have hother : ∀ jobs, op ≠ .jobs → (∀ j, op ≠ .proven j) → loosen op a jobs = jobs := by
    intro jobs hne hproven
    cases op with
    | jobs => exact absurd rfl hne
    | proven j => exact absurd rfl (hproven j)
    | _ => rfl
  unfold Jobs at h ⊢
  show loosen op a (loose log) = [] ∨ (∃ j, loosen op a (loose log) = [some j] ∧ job = some j) ∨ unknown = true
  by_cases hjobs : op = .jobs
  · exact .inr (.inr (hop hjobs))
  by_cases hproven : ∃ j, op = .proven j
  · obtain ⟨k, rfl⟩ := hproven
    rcases h with h | ⟨j, hl, hj⟩ | h
    · refine .inl ?_
      rw [h]
      cases a <;> rfl
    · rw [hl]
      by_cases htrue : a = .true
      · subst htrue
        by_cases hk : j = k
        · exact .inl (by simp [loosen, hk])
        · exact .inr (.inl ⟨j, by simp [loosen, hk], hj⟩)
      · refine .inr (.inl ⟨j, ?_, hj⟩)
        cases a with
        | true => exact absurd rfl htrue
        | _ => rfl
    · exact .inr (.inr h)
  · rw [hother _ hjobs fun j hj => hproven ⟨j, hj⟩]
    exact h

end Conversation

end Arhugula
