import Arhugula.Spec.Session

/-!
# What the session owner guarantees

`session_exclusive`, for every schedule of any number of clients: what is accepted is the latest
generation that was begun, neither canceled nor released since; generations rise; one is begun
after the one before was released clean; nothing is accepted or begun after an unclean release;
and nobody but the owner changes anything.
-/

namespace Arhugula

namespace Session

variable {o : SessionOwner} {log newer older mid : List Event} {e b x : Event} {g n m : ℕ} {c : Bool}

/-! ## The methods -/

theorem positive_spec {z : Option ℤ} (h : positive z = some g) : z = some (g : ℤ) ∧ 0 < g := by
  unfold positive at h
  split at h
  · split_ifs at h with hz
    cases h
    rw [Int.toNat_of_nonneg (by omega)]
    exact ⟨rfl, by omega⟩
  · cases h

theorem begin_spec {mode : Option String} {o' : SessionOwner} (h : o.begin mode = .ok (g, o')) :
    o.state = .idle ∧ g = o.generation + 1 ∧
      o' = { o with generation := o.generation + 1, owner := some (o.generation + 1), state := .owned } := by
  unfold SessionOwner.begin at h
  split_ifs at h with hmode hfault hidle
  cases h
  exact ⟨not_not.1 hidle, rfl, rfl⟩

/-- A `cancel` that returns canceled the owner, or named somebody else. -/
theorem cancel_spec {generation : Option (Option ℤ)} {o' : SessionOwner}
    (h : o.cancel generation = .ok (g, o')) :
    (o' = o.invalidate ∧ (generation = none ∨ ∃ n : ℕ, o.owner = some n ∧ generation = some (some (n : ℤ)))) ∨
      (o' = o ∧ generation ≠ none ∧ ∀ n : ℕ, o.owner = some n → generation ≠ some (some (n : ℤ))) := by
  unfold SessionOwner.cancel at h
  split at h
  · cases h
    exact .inl ⟨rfl, .inl rfl⟩
  split at h
  · cases h
  rename_i z k hk
  obtain ⟨rfl, -⟩ := positive_spec hk
  split_ifs at h with howner
  · cases h
    refine .inr ⟨rfl, by simp, fun n hn heq => howner ?_⟩
    have hk : (k : ℤ) = n := by simpa using heq
    rw [hn, Int.ofNat_inj.1 hk]
  · cases h
    exact .inl ⟨rfl, .inr ⟨k, not_not.1 howner, rfl⟩⟩

/-- A `cancel` that raises named no generation. -/
theorem cancel_raised {generation : Option (Option ℤ)} {x : Error} (h : o.cancel generation = .error x) :
    generation ≠ none ∧ ∀ n : ℕ, 0 < n → generation ≠ some (some (n : ℤ)) := by
  unfold SessionOwner.cancel at h
  split at h
  · cases h
  split at h
  · rename_i z _ hz
    refine ⟨by simp, fun n hn heq => ?_⟩
    obtain rfl : z = some (n : ℤ) := by simpa using heq
    simp only [positive] at hz
    rw [if_pos (by omega)] at hz
    cases hz
  · split_ifs at h

theorem release_spec {generation : Option ℤ} {cleaned : Option Bool} {o' : SessionOwner}
    (h : o.release generation cleaned = .ok o') : ∃ (g : ℕ) (c : Bool), generation = some (g : ℤ) ∧ cleaned = some c ∧
      o.owner = some g ∧ o.state ≠ .faulted ∧
      o' = if c then { o with owner := none, state := .idle } else { o with state := .faulted } := by
  unfold SessionOwner.release at h
  split at h
  · rename_i k c hk
    obtain ⟨rfl, -⟩ := positive_spec hk
    split_ifs at h with hfault howner hclean
    · cases h
      obtain rfl : c = false := by simpa using hclean
      exact ⟨k, false, rfl, rfl, not_not.1 howner, hfault, rfl⟩
    · cases h
      obtain rfl : c = true := by simpa using hclean
      exact ⟨k, true, rfl, rfl, not_not.1 howner, hfault, rfl⟩
  · cases h

/-- A release of a generation that returns. -/
theorem release_nat {o' : SessionOwner} (h : o.release (some g) (some c) = .ok o') :
    o.owner = some g ∧ o.state ≠ .faulted ∧
      o' = if c then { o with owner := none, state := .idle } else { o with state := .faulted } := by
  obtain ⟨k, c', hk, hc, howner, hfault, rfl⟩ := release_spec h
  cases hc
  have hk' : (g : ℤ) = k := by simpa using hk
  obtain rfl : g = k := Int.ofNat_inj.1 hk'
  exact ⟨howner, hfault, rfl⟩

theorem accepts_spec {z : Option ℤ} (h : o.accepts z = true) :
    ∃ g : ℕ, z = some (g : ℤ) ∧ o.state = .owned ∧ o.owner = some g := by
  unfold SessionOwner.accepts at h
  split at h
  · cases h
  rename_i k hk
  obtain ⟨rfl, -⟩ := positive_spec hk
  rw [Bool.and_eq_true, decide_eq_true_eq, decide_eq_true_eq] at h
  exact ⟨k, rfl, h⟩

/-! ## Events -/

/-- The event begins generation `g`. -/
def Begins (e : Event) (g : ℕ) : Prop := (∃ mode, e.call = .begin mode) ∧ e.outcome = .generation g

/-- The event cancels generation `g`, or all of them. -/
def Cancels (e : Event) (g : ℕ) : Prop := e.call = .cancel none ∨ e.call = .cancel (some (some g))

/-- The event releases generation `g`. -/
def Releases (e : Event) (g : ℕ) (cleaned : Bool) : Prop :=
  e.call = .release (some g) (some cleaned) ∧ e.outcome = .released

/-- **Generation `g` is held**: it is the latest that was begun, and neither canceled nor released
since. -/
def Held (log : List Event) (g : ℕ) : Prop :=
  ∃ mid b older, log = mid ++ b :: older ∧ Begins b g ∧
    ∀ x ∈ mid, (∀ n, ¬ Begins x n) ∧ ¬ Cancels x g ∧ ∀ c, ¬ Releases x g c

/-- **Generation `g` is owned**: it is the latest that was begun, and not released clean since. -/
def Owned (log : List Event) (g : ℕ) : Prop :=
  ∃ mid b older, log = mid ++ b :: older ∧ Begins b g ∧
    ∀ x ∈ mid, (∀ n, ¬ Begins x n) ∧ ¬ Releases x g true

theorem Held.push (h : Held log g) (hb : ∀ n, ¬ Begins e n) (hc : ¬ Cancels e g)
    (hr : ∀ c, ¬ Releases e g c) : Held (e :: log) g := by
  obtain ⟨mid, b, older, rfl, hbegins, hmid⟩ := h
  refine ⟨e :: mid, b, older, rfl, hbegins, fun x hx => ?_⟩
  rcases List.mem_cons.1 hx with rfl | hx
  · exact ⟨hb, hc, hr⟩
  · exact hmid x hx

theorem Owned.push (h : Owned log g) (hb : ∀ n, ¬ Begins e n) (hr : ¬ Releases e g true) :
    Owned (e :: log) g := by
  obtain ⟨mid, b, older, rfl, hbegins, hmid⟩ := h
  refine ⟨e :: mid, b, older, rfl, hbegins, fun x hx => ?_⟩
  rcases List.mem_cons.1 hx with rfl | hx
  · exact ⟨hb, hr⟩
  · exact hmid x hx

theorem begins_held (h : Begins e g) : Held (e :: log) g := ⟨[], e, log, rfl, h, fun x hx => by cases hx⟩

theorem begins_owned (h : Begins e g) : Owned (e :: log) g := ⟨[], e, log, rfl, h, fun x hx => by cases hx⟩

/-- The generation that was begun last is one. -/
theorem last_begun {mid mid' older older' : List Event} {b b' : Event}
    (h : mid ++ b :: older = mid' ++ b' :: older') (hb : Begins b g) (hb' : Begins b' n)
    (hmid : ∀ x ∈ mid, ∀ k, ¬ Begins x k) (hmid' : ∀ x ∈ mid', ∀ k, ¬ Begins x k) : g = n := by
  induction mid generalizing mid' with
  | nil =>
    cases mid' with
    | nil =>
      obtain ⟨rfl, -⟩ := List.cons.inj h
      have := hb.2.symm.trans hb'.2
      cases this
      rfl
    | cons y mid' =>
      obtain ⟨rfl, -⟩ := List.cons.inj h
      exact absurd hb (hmid' _ List.mem_cons_self g)
  | cons y mid ih =>
    cases mid' with
    | nil =>
      obtain ⟨rfl, -⟩ := List.cons.inj h
      exact absurd hb' (hmid _ List.mem_cons_self n)
    | cons z mid' =>
      exact ih (List.cons.inj h).2 (fun x hx => hmid x (List.mem_cons_of_mem y hx))
        fun x hx => hmid' x (List.mem_cons_of_mem z hx)

/-! ## The invariant -/

/-- **What the owner knows of its schedule.** -/
structure Known (log : List Event) (o : SessionOwner) : Prop where
  /-- It is idle where it has no owner. -/
  idle : o.state = .idle ↔ o.owner = none
  /-- The generation it owns is held, or was canceled or released unclean. -/
  held : ∀ g, o.state = .owned → o.owner = some g → Held log g
  owned : ∀ g, o.owner = some g → Owned log g
  /-- Where it has no owner, what was begun last was released clean. -/
  free : o.owner = none → ∀ mid b older g, log = mid ++ b :: older → Begins b g →
    (∀ x ∈ mid, ∀ n, ¬ Begins x n) → ∃ x ∈ mid, Releases x g true
  counted : ∀ e ∈ log, ∀ g, Begins e g → 0 < g ∧ g ≤ o.generation
  faulted : ∀ e ∈ log, ∀ g, Releases e g false → o.state = .faulted

theorem Known.new (sessionId : String) : Known [] (.new sessionId) where
  idle := ⟨fun _ => rfl, fun _ => rfl⟩
  held g h := by cases h
  owned g h := by cases h
  free _ mid b older g h := by simp at h
  counted e he := by cases he
  faulted e he := by cases he

/-- An event that begins nothing and releases nothing. -/
theorem Known.push (h : Known log o) (hb : ∀ n, ¬ Begins e n) (hr : ∀ n c, ¬ Releases e n c)
    (hc : ∀ g, o.state = .owned → o.owner = some g → ¬ Cancels e g) : Known (e :: log) o where
  idle := h.idle
  held g hs ho := (h.held g hs ho).push hb (hc g hs ho) (hr g)
  owned g ho := (h.owned g ho).push hb (hr g true)
  free ho mid b older g hlog hbegins hmid := by
    cases mid with
    | nil =>
      obtain ⟨rfl, -⟩ := List.cons.inj hlog
      exact absurd hbegins (hb g)
    | cons y mid =>
      obtain ⟨x, hx, hrel⟩ := h.free ho mid b older g (List.cons.inj hlog).2 hbegins
        fun x hx => hmid x (List.mem_cons_of_mem y hx)
      exact ⟨x, List.mem_cons_of_mem y hx, hrel⟩
  counted x hx g hg := by
    rcases List.mem_cons.1 hx with rfl | hx
    · exact absurd hg (hb g)
    · exact h.counted x hx g hg
  faulted x hx g hg := by
    rcases List.mem_cons.1 hx with rfl | hx
    · exact absurd hg (hr g false)
    · exact h.faulted x hx g hg

/-- What is owned is canceled. -/
theorem Known.invalidate (h : Known log o) : Known log o.invalidate := by
  have hstate : o.invalidate.state ≠ .owned := by
    unfold SessionOwner.invalidate
    simp only
    split
    · intro hcontra
      cases hcontra
    · assumption
  have hidle : o.invalidate.state = .idle ↔ o.state = .idle := by
    unfold SessionOwner.invalidate
    simp only
    split
    · rename_i howned
      rw [howned]
      exact ⟨fun hcontra => (by cases hcontra), fun hcontra => by cases hcontra⟩
    · exact Iff.rfl
  refine ⟨hidle.trans h.idle, fun g hs => absurd hs hstate, h.owned, h.free, fun x hx g hg => ?_,
    fun x hx g hg => ?_⟩
  · obtain ⟨hpos, hle⟩ := h.counted x hx g hg
    exact ⟨hpos, Nat.le_succ_of_le hle⟩
  · have hf := h.faulted x hx g hg
    unfold SessionOwner.invalidate
    rw [hf]
    rfl

theorem known_begin {mode : Option String} (h : Known log o) :
    Known (⟨.begin mode, (step o (.begin mode)).1⟩ :: log) (step o (.begin mode)).2 := by
  simp only [step]
  cases hb : o.begin mode with
  | error x =>
    apply h.push
    · rintro n ⟨-, hn⟩
      cases hn
    · rintro n c ⟨hn, -⟩
      cases hn
    · rintro g - - (hn | hn) <;> cases hn
  | ok r =>
    obtain ⟨g, o'⟩ := r
    obtain ⟨hidle, rfl, rfl⟩ := begin_spec hb
    have hbegins : Begins ⟨.begin mode, .generation (o.generation + 1)⟩ (o.generation + 1) :=
      ⟨⟨mode, rfl⟩, rfl⟩
    refine ⟨⟨fun hcontra => (by cases hcontra), fun hcontra => (by cases hcontra)⟩, fun g _ ho => ?_,
      fun g ho => ?_, fun ho => (by cases ho), fun x hx g hg => ?_, fun x hx g hg => ?_⟩
    · cases ho
      exact begins_held hbegins
    · cases ho
      exact begins_owned hbegins
    · rcases List.mem_cons.1 hx with rfl | hx
      · cases hg.2
        exact ⟨Nat.succ_pos _, le_rfl⟩
      · obtain ⟨hpos, hle⟩ := h.counted x hx g hg
        exact ⟨hpos, Nat.le_succ_of_le hle⟩
    · rcases List.mem_cons.1 hx with rfl | hx
      · cases hg.1
      · have hf := h.faulted x hx g hg
        rw [hidle] at hf
        cases hf

theorem known_cancel {generation : Option (Option ℤ)} (h : Known log o) :
    Known (⟨.cancel generation, (step o (.cancel generation)).1⟩ :: log)
      (step o (.cancel generation)).2 := by
  have hbegins : ∀ y n, ¬ Begins ⟨.cancel generation, y⟩ n := by
    rintro y n ⟨⟨mode, hn⟩, -⟩
    cases hn
  have hreleases : ∀ y n c, ¬ Releases ⟨.cancel generation, y⟩ n c := by
    rintro y n c ⟨hn, -⟩
    cases hn
  simp only [step]
  cases hc : o.cancel generation with
  | error x =>
    obtain ⟨hall, hnamed⟩ := cancel_raised hc
    refine h.push (hbegins _) (hreleases _) fun g _ ho hcontra => ?_
    obtain ⟨mid, b, older, rfl, hb, -⟩ := h.owned g ho
    obtain ⟨hpos, -⟩ := h.counted b (by simp) g hb
    rcases hcontra with hcontra | hcontra
    · exact hall (Call.cancel.inj hcontra)
    · exact hnamed g hpos (Call.cancel.inj hcontra)
  | ok r =>
    obtain ⟨k, o'⟩ := r
    rcases cancel_spec hc with ⟨rfl, -⟩ | ⟨rfl, hall, hnamed⟩
    · -- once it is canceled, nothing is held
      refine h.invalidate.push (hbegins _) (hreleases _) fun g hs => ?_
      unfold SessionOwner.invalidate at hs
      simp only at hs
      split at hs
      · cases hs
      · contradiction
    · refine h.push (hbegins _) (hreleases _) fun g _ ho hcontra => ?_
      rcases hcontra with hcontra | hcontra
      · exact hall (Call.cancel.inj hcontra)
      · exact hnamed g ho (Call.cancel.inj hcontra)

theorem known_release {generation : Option ℤ} {cleaned : Option Bool} (h : Known log o) :
    Known (⟨.release generation cleaned, (step o (.release generation cleaned)).1⟩ :: log)
      (step o (.release generation cleaned)).2 := by
  have hbegins : ∀ y n, ¬ Begins ⟨.release generation cleaned, y⟩ n := by
    rintro y n ⟨⟨mode, hn⟩, -⟩
    cases hn
  simp only [step]
  cases hr : o.release generation cleaned with
  | error x =>
    apply h.push (hbegins _)
    · rintro n c ⟨-, hn⟩
      cases hn
    · rintro g - - (hn | hn) <;> cases hn
  | ok o' =>
    obtain ⟨k, c, rfl, rfl, howner, hfault, rfl⟩ := release_spec hr
    have hcounted : ∀ x ∈ ⟨.release (some (k : ℤ)) (some c), .released⟩ :: log, ∀ g, Begins x g →
        0 < g ∧ g ≤ o.generation := by
      intro x hx g hg
      rcases List.mem_cons.1 hx with rfl | hx
      · exact absurd hg (hbegins _ g)
      · exact h.counted x hx g hg
    have howned := h.owned k howner
    cases c with
    | true =>
      refine ⟨⟨fun _ => rfl, fun _ => rfl⟩, fun g hs => (by cases hs), fun g ho => (by cases ho),
        fun _ mid b older g hlog hb hmid => ?_, hcounted, fun x hx g hg => ?_⟩
      · -- the generation that was begun last is the one released now
        obtain ⟨mid', b', older', heq, hb', hmid'⟩ := howned
        cases mid with
        | nil =>
          obtain ⟨rfl, -⟩ := List.cons.inj hlog
          exact absurd hb (hbegins _ g)
        | cons y mid =>
          obtain ⟨rfl, hold⟩ := List.cons.inj hlog
          have hlast : g = k := by
            rw [heq] at hold
            exact last_begun hold.symm hb hb' (fun x hx => hmid x (List.mem_cons_of_mem _ hx))
              fun x hx => (hmid' x hx).1
          subst hlast
          exact ⟨_, List.mem_cons_self, rfl, rfl⟩
      · rcases List.mem_cons.1 hx with rfl | hx
        · cases hg.1
        · exact absurd (h.faulted x hx g hg) hfault
    | false =>
      refine ⟨⟨fun hcontra => (by cases hcontra), fun hcontra => ?_⟩, fun g hs => (by cases hs),
        fun g ho => ?_, fun ho => ?_, hcounted, fun x hx g hg => rfl⟩
      · rw [show o.owner = none from hcontra] at howner
        cases howner
      · refine (h.owned g ho).push (hbegins _) ?_
        rintro ⟨hcontra, -⟩
        cases hcontra
      · rw [show o.owner = none from ho] at howner
        cases howner

/-- **Every schedule is known.** -/
theorem run_known (sessionId : String) (calls : List Call) :
    Known (run sessionId calls).1 (run sessionId calls).2 := by
  induction calls with
  | nil => exact .new sessionId
  | cons call calls ih =>
    cases call with
    | begin mode => exact known_begin ih
    | cancel generation => exact known_cancel ih
    | release generation cleaned => exact known_release ih
    | accepts generation =>
      apply ih.push
      · rintro n ⟨⟨mode, hn⟩, -⟩
        cases hn
      · rintro n c ⟨hn, -⟩
        cases hn
      · rintro g - - (hn | hn) <;> cases hn

/-! ## Exclusivity -/

/-- **What a schedule shows**, of any number of clients. -/
structure Exclusive (log : List Event) : Prop where
  /-- What is accepted is held. -/
  accepted : ∀ newer e older z, log = newer ++ e :: older → e.call = .accepts z →
    e.outcome = .accepted true → ∃ g : ℕ, z = some (g : ℤ) ∧ Held older g
  rising : ∀ newer e older g n, log = newer ++ e :: older → Begins e g → (∃ b ∈ older, Begins b n) → n < g
  /-- What was begun before was released clean. -/
  handed : ∀ newer e mid b older g n, log = newer ++ e :: (mid ++ b :: older) → Begins e g → Begins b n →
    (∀ x ∈ mid, ∀ k, ¬ Begins x k) → ∃ x ∈ mid, Releases x n true
  /-- After an unclean release nothing is accepted or begun. -/
  faulted : ∀ newer e older g, log = newer ++ e :: older → Releases e g false →
    ∀ x ∈ newer, (∀ n, ¬ Begins x n) ∧ x.outcome ≠ .accepted true

/-- Where an event stands in a schedule, it was made by the calls before it. -/
theorem run_event {sessionId : String} {calls : List Call} (h : (run sessionId calls).1 = newer ++ e :: older) :
    ∃ earlier, (run sessionId earlier).1 = older ∧
      e.outcome = (step (run sessionId earlier).2 e.call).1 := by
  induction calls generalizing newer with
  | nil => simp [run] at h
  | cons call calls ih =>
    cases newer with
    | cons y newer => exact ih (List.cons.inj h).2
    | nil =>
      obtain ⟨rfl, rfl⟩ := List.cons.inj h
      exact ⟨calls, rfl, rfl⟩

/-- A call that begins a generation finds the owner idle. -/
theorem step_begins (h : e.outcome = (step o e.call).1) (hb : Begins e g) :
    o.state = .idle ∧ g = o.generation + 1 := by
  obtain ⟨⟨mode, hcall⟩, hout⟩ := hb
  rw [hcall, hout] at h
  simp only [step] at h
  cases hbegin : o.begin mode with
  | error x =>
    rw [hbegin] at h
    cases h
  | ok r =>
    rw [hbegin] at h
    obtain ⟨hidle, hg, -⟩ := begin_spec hbegin
    cases h
    exact ⟨hidle, hg⟩

/-- A call that is answered by `True` finds its generation owned. -/
theorem step_accepts (h : e.outcome = (step o e.call).1) (ht : e.outcome = .accepted true) :
    ∃ g : ℕ, e.call = .accepts (some (g : ℤ)) ∧ o.state = .owned ∧ o.owner = some g := by
  rw [ht] at h
  obtain ⟨call, outcome⟩ := e
  cases call with
  | accepts z =>
    have haccepts := Outcome.accepted.inj h
    obtain ⟨g, rfl, hrest⟩ := accepts_spec haccepts.symm
    exact ⟨g, rfl, hrest⟩
  | begin mode =>
    simp only [step] at h
    split at h <;> cases h
  | cancel generation =>
    simp only [step] at h
    split at h <;> cases h
  | release generation cleaned =>
    simp only [step] at h
    split at h <;> cases h

theorem run_exclusive (sessionId : String) (calls : List Call) : Exclusive (run sessionId calls).1 where
  accepted newer e older z hlog hcall hout := by
    obtain ⟨earlier, hold, hstep⟩ := run_event hlog
    obtain ⟨g, hg, hstate, howner⟩ := step_accepts hstep hout
    have hheld := (run_known sessionId earlier).held g hstate howner
    rw [hold] at hheld
    rw [hcall] at hg
    exact ⟨g, Call.accepts.inj hg, hheld⟩
  rising newer e older g n hlog he hb := by
    obtain ⟨earlier, hold, hstep⟩ := run_event hlog
    obtain ⟨b, hmem, hb⟩ := hb
    rw [← hold] at hmem
    have hle := ((run_known sessionId earlier).counted b hmem n hb).2
    have hg := (step_begins hstep he).2
    omega
  handed newer e mid b older g n hlog he hb hmid := by
    obtain ⟨earlier, hold, hstep⟩ := run_event hlog
    have hknown := run_known sessionId earlier
    have hfree := hknown.idle.1 (step_begins hstep he).1
    exact hknown.free hfree mid b older n hold hb hmid
  faulted newer e older g hlog he x hx := by
    obtain ⟨after, before, rfl⟩ := List.append_of_mem hx
    rw [List.append_assoc, List.cons_append] at hlog
    obtain ⟨earlier, hold, hstep⟩ := run_event hlog
    have hfault := (run_known sessionId earlier).faulted e (by rw [hold]; simp) g he
    refine ⟨fun n hb => ?_, fun ht => ?_⟩
    · have hidle := (step_begins hstep hb).1
      rw [hfault] at hidle
      cases hidle
    · obtain ⟨k, -, howned, -⟩ := step_accepts hstep ht
      rw [hfault] at howned
      cases howned

/-- Two generations are not accepted at the same time. -/
theorem accepts_one {z z' : Option ℤ} (h : o.accepts z = true) (h' : o.accepts z' = true) : z = z' := by
  obtain ⟨g, rfl, -, ho⟩ := accepts_spec h
  obtain ⟨g', rfl, -, ho'⟩ := accepts_spec h'
  rw [Option.some_inj.1 (ho.symm.trans ho')]

/-- **A stale client changes nothing.** -/
theorem step_foreign {call : Call} {z : Option ℤ} (h : ∀ g : ℕ, o.owner = some g → z ≠ some (g : ℤ))
    (hcall : call = .cancel (some z) ∨ ∃ c, call = .release z c) : (step o call).2 = o := by
  rcases hcall with rfl | ⟨c, rfl⟩
  · simp only [step]
    cases hc : o.cancel (some z) with
    | error x => rfl
    | ok r =>
      obtain ⟨k, o'⟩ := r
      rcases cancel_spec hc with ⟨-, hall | ⟨n, howner, hnamed⟩⟩ | ⟨rfl, -⟩
      · cases hall
      · exact absurd (Option.some_inj.1 hnamed) (h n howner)
      · rfl
  · simp only [step]
    cases hr : o.release z c with
    | error x => rfl
    | ok o' =>
      obtain ⟨g, -, rfl, -, howner, -⟩ := release_spec hr
      exact absurd rfl (h g howner)

/-- **The session owner is exclusive**, in every schedule of any number of clients, also of those
that hold stale generations: at any time one generation is accepted at most, it is the one that is
held, and a cancellation or release of another changes nothing. -/
theorem session_exclusive (sessionId : String) (calls : List Call) :
    Exclusive (run sessionId calls).1 ∧
      (∀ z z', (run sessionId calls).2.accepts z = true → (run sessionId calls).2.accepts z' = true → z = z') ∧
      (∀ call z, (∀ g : ℕ, (run sessionId calls).2.owner = some g → z ≠ some (g : ℤ)) →
        (call = .cancel (some z) ∨ ∃ c, call = .release z c) →
        (step (run sessionId calls).2 call).2 = (run sessionId calls).2) :=
  ⟨run_exclusive sessionId calls, fun _ _ h h' => accepts_one h h', fun _ _ h hcall => step_foreign h hcall⟩

end Session

end Arhugula
