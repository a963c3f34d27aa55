import Arhugula.Proof.TtsState

/-!
# The steps of a speech output

What `_check`, `_cleanup` and `_retire` leave, whatever their callbacks do: `_cleanup` lets go of all that
is due, once, and `_retire` publishes a success only of a call that is neither canceled nor stale.
-/

namespace Arhugula

namespace Tts

open Reentrant Session

variable {digest : Providers.Manifest → String} {b : Binding} {w w' w₁ w₂ : TWorld digest}
  {d d' s : TtsOutput} {log log' : List (TEntry digest)} {ctx : List (ℕ × Op)} {i : ℕ} {op : Op} {c c' : Call}
  {α : Type} {r : Except Exc α}

/-! ## Changes of the state -/

theorem Linked.keep (h : Linked log d) (hf : d'.fault = d.fault) (ho : d'.owner = d.owner)
    (ht : d'.terminal = d.terminal) (hc : d'.call = none → d.call = none) : Linked log d' := by
  cases log with
  | nil => exact ⟨hf.trans h.1, ht.trans h.2⟩
  | cons m log =>
    obtain ⟨hfault, howner, hterminal, hdropped⟩ := h
    refine ⟨fun hm => hf ▸ hfault hm, ho ▸ howner, fun c hx => ?_, fun hm hd => hdropped hm (hc hd)⟩
    rw [ho]
    exact hterminal c (ht ▸ hx)

/-- A change of the state that leaves what is known. -/
theorem Mid.put (h : Mid w) (hl : Linked w.log s) (he : s.epoch = w.st.epoch) (hb : s.busy = true)
    (hborn : ∀ c, s.call = some c → Born w.log c) : Mid (w.put s) :=
  ⟨⟨h.owes, he.trans h.count, hborn⟩, hl, hb⟩

/-- A change of the fields of the slot, of which the fault and the terminal stay. -/
theorem Mid.keep (h : Mid w) (hf : s.fault = w.st.fault) (ht : s.terminal = w.st.terminal)
    (ho : s.owner = w.st.owner) (he : s.epoch = w.st.epoch) (hb : s.busy = true)
    (hc : s.call = none → w.st.call = none) (hborn : ∀ c, s.call = some c → Born w.log c) : Mid (w.put s) :=
  h.put (h.linked.keep hf ho ht hc) he hb hborn

/-- A change of the call. -/
theorem Mid.change (h : Mid w) {f : Call → Call} (hs : ∀ c, (f c).snapshot = c.snapshot)
    (he : ∀ c, (f c).epoch = c.epoch) : Mid (w.put (w.st.change f)) := by
  refine h.keep rfl rfl rfl rfl h.busy (fun hn => Option.map_eq_none_iff.1 hn) fun c hc => ?_
  obtain ⟨c₀, hc₀, rfl⟩ := Option.map_eq_some_iff.1 hc
  exact (h.born c₀ hc₀).change (hs c₀) (he c₀)

/-! ## Checks -/

theorem holds_gap (h : Mid w) :
    Holds (outputContract digest b) ctx i gap (fun r w' => r = .ok () ∧ Passed w r w' ∧
      (∀ op', Op.gap ≠ op' → answered op' w'.log = answered op' w.log) ∧ ∃ k l, w'.log = k :: l ∧ k.st = w'.st) w := by
  unfold gap
  rw [holds_bind]
  refine (holds_call h .gap fun _ => trivial).mono ?_
  rintro r w' ⟨a, rfl, hasked⟩
  obtain ⟨l, hl⟩ := hasked.fresh
  refine ⟨rfl, hasked.passed rfl fun he => (by cases he), fun op' hne => ?_, ⟨_, l, hl, rfl⟩⟩
  rw [hasked.answered op', if_neg hne]

/-- **What a sample or a check leaves.** It stops with no code of a success. -/
structure Sampled (w : TWorld digest) (r : Except Exc α) (w' : TWorld digest) : Prop extends Passed w r w' where
  stops : ∀ code, r = .error (.stop code) → ¬ code.success

theorem Sampled.unavailable {β : Type} {r' : Except Exc β} (h : Passed w r' w') :
    Sampled w (Except.error (ε := Exc) (α := α) (.stop .unavailable)) w' := by
  refine ⟨h.result fun he => (by cases he), fun code hc => ?_⟩
  cases hc
  simp [Code.success]

/-- A failure stays one. -/
theorem Sampled.error {β : Type} {e : Exc} (h : Sampled w (Except.error e : Except Exc β) w')
    (hp : Passed w₁ (Except.error e : Except Exc β) w₂) : Sampled w₁ (Except.error e : Except Exc α) w₂ := by
  refine ⟨hp.result fun he => (by cases he; rfl), fun code hc => ?_⟩
  cases hc
  exact h.stops code rfl

theorem holds_sample (h : Mid w) :
    Holds (outputContract digest b) ctx i sample (fun r w' => Sampled w r w' ∧
      ∀ s, r = .ok s → answered .sample w'.log = some (.snapshot s)) w := by
  unfold sample
  rw [holds_bind]
  refine (holds_idle h .sample rfl).mono fun r w' hidled => ?_
  have hpass := hidled.toPassed
  cases r with
  | error e =>
    refine ⟨⟨hpass.result fun he => (by cases he; rfl), fun code hc => ?_⟩, fun s hs => (by cases hs)⟩
    rcases hidled.raised e rfl with rfl | rfl <;> cases hc
  | ok a =>
    cases a with
    | snapshot s =>
      refine ⟨⟨hpass.result fun he => (by cases he), fun code hc => (by cases hc)⟩, fun s' hs => ?_⟩
      cases hs
      exact hidled.value _ rfl
    | _ => exact ⟨.unavailable hpass, fun s hs => (by cases hs)⟩

theorem holds_state (h : Mid w) :
    Holds (outputContract digest b) ctx i state (fun r w' => Sampled w r w' ∧
      answered .sample w'.log = answered .sample w.log ∧ (∃ k l, w'.log = k :: l ∧ k.st = w'.st) ∧
        ∀ s, r = .ok s → answered .state w'.log = some (.status s)) w := by
  unfold state
  rw [holds_bind]
  refine (holds_idle h .state rfl).mono fun r w' hidled => ?_
  have hpass := hidled.toPassed
  have hothers := hidled.others .sample (by simp)
  cases r with
  | error e =>
    refine ⟨⟨hpass.result fun he => (by cases he; rfl), fun code hc => ?_⟩, hothers, hidled.fresh,
      fun s hs => (by cases hs)⟩
    rcases hidled.raised e rfl with rfl | rfl <;> cases hc
  | ok a =>
    cases a with
    | status s =>
      refine ⟨⟨hpass.result fun he => (by cases he), fun code hc => (by cases hc)⟩, hothers, hidled.fresh,
        fun s' hs => ?_⟩
      cases hs
      exact hidled.value _ rfl
    | _ =>
      exact ⟨⟨hpass.result fun he => (by cases he), fun code hc => (by cases hc)⟩, hothers, hidled.fresh,
        fun s hs => (by cases hs)⟩

/-- What `_check` finds under the gate. -/
theorem judge_spec {current : AudioSnapshot} {active : Providers.Status digest} {v : Except Exc Unit}
    (h : judge d current active = v) : v ≠ .error .interrupt ∧ (∀ code, v = .error (.stop code) → ¬ code.success) ∧
      (v = .ok () → ∃ c candidate p, d.call = some c ∧ current = c.snapshot ∧ c.snapshot.policy = some p ∧
        active = .active p.configurationRevision candidate) := by
  unfold judge at h
  have hstale : ∀ {v : Except Exc Unit} {code : Code}, ¬ code.success → .error (.stop code) = v →
      v ≠ .error .interrupt ∧ (∀ code, v = .error (.stop code) → ¬ code.success) ∧
        (v = .ok () → ∃ c candidate p, d.call = some c ∧ current = c.snapshot ∧ c.snapshot.policy = some p ∧
          active = .active p.configurationRevision candidate) := by
    rintro v code hcode rfl
    refine ⟨by simp, fun code' hc => ?_, fun hc => (by cases hc)⟩
    cases hc
    exact hcode
  have hraised : ∀ {v : Except Exc Unit}, .error .exception = v →
      v ≠ .error .interrupt ∧ (∀ code, v = .error (.stop code) → ¬ code.success) ∧
        (v = .ok () → ∃ c candidate p, d.call = some c ∧ current = c.snapshot ∧ c.snapshot.policy = some p ∧
          active = .active p.configurationRevision candidate) := by
    rintro v rfl
    exact ⟨by simp, fun code hc => (by cases hc), fun hc => (by cases hc)⟩
  split at h
  · exact hraised h
  rename_i call hcall
  split at h
  · exact hstale (by simp [Code.success]) h
  split at h
  · exact hstale (by simp [Code.success]) h
  rename_i hcurrent
  split at h
  · exact hraised h
  split at h
  · exact hstale (by simp [Code.success]) h
  split at h
  · exact hstale (by simp [Code.success]) h
  · exact hraised h
  rename_i revision candidate p hp
  split at h
  · exact hstale (by simp [Code.success]) h
  rename_i hrevision
  refine ⟨by rw [← h]; simp, fun code hc => (by rw [← h] at hc; cases hc), fun _ => ?_⟩
  obtain rfl : revision = p.configurationRevision := not_not.1 hrevision
  exact ⟨call, candidate, p, hcall, not_not.1 hcurrent, hp, rfl⟩

/-- **`_check`.** Where it passes, the call is fresh. -/
theorem holds_check (h : Mid w) :
    Holds (outputContract digest b) ctx i check (fun r w' => Sampled w r w' ∧
      (r = .ok () → ∃ c, w'.st.call = some c ∧ Checked w'.log c)) w := by
  unfold check
  rw [holds_bind]
  refine (holds_sample h).mono fun r w₁ ⟨hsampled, hcurrent⟩ => ?_
  cases r with
  | error e => exact ⟨hsampled.error hsampled.toPassed, fun hr => (by cases hr)⟩
  | ok current =>
    dsimp only
    rw [holds_bind]
    refine (holds_state hsampled.toMid).mono fun r w₂ ⟨hstate, hsame, _, hactive⟩ => ?_
    have hpass := hsampled.toPassed.trans hstate.toPassed
    cases r with
    | error e => exact ⟨hstate.error hpass, fun hr => (by cases hr)⟩
    | ok active =>
      dsimp only
      rw [holds_bind, holds_read]
      dsimp only [id]
      obtain ⟨hcalm, hstops, hfresh⟩ := judge_spec (rfl : judge w₂.st current active = judge w₂.st current active)
      have hend : ∀ v, judge w₂.st current active = v → Sampled w v w₂ ∧
          (v = .ok () → ∃ c, w₂.st.call = some c ∧ Checked w₂.log c) := by
        rintro v rfl
        refine ⟨⟨hpass.result fun he => absurd he hcalm, hstops⟩, fun hok => ?_⟩
        obtain ⟨c, candidate, p, hc, rfl, hp, rfl⟩ := hfresh hok
        exact ⟨c, hc, hsame.trans (hcurrent _ rfl), candidate, p, hp, hactive _ rfl⟩
      cases hv : judge w₂.st current active with
      | ok v => exact hend _ hv
      | error e => exact hend _ hv

/-- **The last check of `_retire`.** It gives the code of a success only to a fresh call. -/
theorem holds_recheck (h : Mid w) (code : Code) :
    Holds (outputContract digest b) ctx i (recheck code) (fun r w' => Passed w r w' ∧
      (∀ e, r = .error e → e = .interrupt) ∧
        ∀ code', r = .ok code' → code'.success → ∃ c, w'.st.call = some c ∧ Checked w'.log c) w := by
  unfold recheck
  rw [holds_catching, holds_bind]
  refine (holds_check h).mono fun r w' ⟨hsampled, hfresh⟩ => ?_
  have hcode : ∀ {code' : Code}, ¬ code'.success → r ≠ .error .interrupt → Passed w (Except.ok (ε := Exc) code') w' ∧
      (∀ e, Except.ok (ε := Exc) code' = .error e → e = .interrupt) ∧
        ∀ code'', Except.ok (ε := Exc) code' = .ok code'' → code''.success →
          ∃ c, w'.st.call = some c ∧ Checked w'.log c := by
    refine fun hne _ => ⟨hsampled.toPassed.result fun he => (by cases he), fun e he => (by cases he), fun x hx hs => ?_⟩
    cases hx
    exact absurd hs hne
  cases r with
  | ok _ => exact ⟨hsampled.toPassed.result fun he => (by cases he), fun e he => (by cases he), fun _ _ _ => hfresh rfl⟩
  | error e =>
    cases e with
    | stop code' => exact hcode (hsampled.stops code' rfl) (by simp)
    | interrupt =>
      exact ⟨hsampled.toPassed.result fun _ => rfl, fun e he => (by cases he; rfl), fun x hx => (by cases hx)⟩
    | value => exact hcode (by simp [Code.success]) (by simp)
    | exception => exact hcode (by simp [Code.success]) (by simp)

/-! ## `_cleanup` -/

/-- **What a part of `_cleanup` leaves**: it fails only with what is no `Exception`. -/
structure Parted (w : TWorld digest) (call : Option Call) (r : Except Exc Bool) (w' : TWorld digest)
    (P : Bool → Prop) : Prop extends Mid w' where
  own : w'.st.toSlot = { w.st.toSlot with call := call }
  disturbed : Disturbed w.log → Disturbed w'.log
  ended : (r = .error .interrupt ∧ Disturbed w'.log) ∨ ∃ p, r = .ok p ∧ (Disturbed w'.log ∨ P p)

/-- One call that lets go of something, and is to prove it. -/
theorem holds_proves (h : Mid w) (hop : (∃ n, op = .cancel n) ∨ ∃ n, op = .restore n)
    (ho : ¬ Disturbed w.log → Obliged op (due w.log)) :
    Holds (outputContract digest b) ctx i (proves op) (fun r w' => Parted w w.st.call r w' fun p =>
      due w'.log = ((due w.log).call op).prove p) w := by
  have hreply : ∀ (u : Due) (a : Answer digest), u.reply op a = u.prove a.isTrue := by
    intro u a
    rcases hop with ⟨n, rfl⟩ | ⟨n, rfl⟩ <;> rfl
  unfold proves onException
  rw [holds_catching, holds_bind]
  refine (holds_asked h op ho).mono ?_
  rintro r w' ⟨a, hasked, hcame⟩
  have hdue := hasked.due
  rw [hreply] at hdue
  have hmono : Disturbed w.log → Disturbed w'.log := fun hd => hasked.disturbed.2 (.inr hd)
  cases hcame with
  | ok _ _ => exact ⟨hasked.toMid, hasked.own, hmono, .inr ⟨_, rfl, .inr hdue⟩⟩
  | interrupt => exact ⟨hasked.toMid, hasked.own, hmono, .inl ⟨rfl, hasked.disturbed.2 (.inl rfl)⟩⟩
  | exception ha =>
    refine ⟨hasked.toMid, hasked.own, hmono, .inr ⟨false, rfl, .inr ?_⟩⟩
    rcases ha with rfl | ⟨code, rfl⟩ <;> exact hdue

/-- What is left of what is due. -/
structure Left (u : Due) (leases players : List ℕ) (clean fault : Bool) : Prop where
  leases : u.leases = leases
  players : u.players = players
  accepted : u.accepted = false
  canceled : u.canceled = false
  clean : clean = true → u.clean = true ∨ fault = true

/-- A handle is let go of, if there is one. -/
theorem holds_letGo (h : Mid w) {op : Option Op} {clean : Bool} {P : Bool → Due → Prop}
    (hop : ∀ o, op = some o → (∃ n, o = .cancel n) ∨ ∃ n, o = .restore n)
    (ho : ∀ o, op = some o → ¬ Disturbed w.log → Obliged o (due w.log))
    (hnone : op = none → Disturbed w.log ∨ P clean (due w.log))
    (hsome : ∀ o, op = some o → ∀ p, Disturbed w.log ∨ P (p && clean) (((due w.log).call o).prove p)) :
    Holds (outputContract digest b) ctx i (letGo op clean) (fun r w' => Parted w w.st.call r w' fun p =>
      P p (due w'.log)) w := by
  cases op with
  | none => exact ⟨h, rfl, id, .inr ⟨clean, rfl, hnone rfl⟩⟩
  | some o =>
    unfold letGo
    rw [holds_bind]
    refine (holds_proves h (hop o rfl) (ho o rfl)).mono fun r w' hparted => ?_
    rcases hparted.ended with ⟨rfl, hd⟩ | ⟨p, rfl, hdue⟩
    · exact ⟨hparted.toMid, hparted.own, hparted.disturbed, .inl ⟨rfl, hd⟩⟩
    · refine ⟨hparted.toMid, hparted.own, hparted.disturbed, .inr ⟨p && clean, rfl, ?_⟩⟩
      rcases hdue with hd | hdue
      · exact .inl hd
      · rcases hsome o rfl p with hd | hP
        · exact .inl (hparted.disturbed hd)
        · rw [hdue]
          exact .inr hP

/-- **The player is canceled.** -/
theorem holds_cancelPlayer (h : Mid w) {player : Option ℕ} {clean : Bool} {leases : List ℕ}
    (hleft : Disturbed w.log ∨ Left (due w.log) leases player.toList clean w.st.fault) :
    Holds (outputContract digest b) ctx i (letGo (player.map .cancel) clean) (fun r w' =>
      Parted w w.st.call r w' fun p => Left (due w'.log) leases [] p w.st.fault) w := by
  refine holds_letGo (P := fun p u => Left u leases [] p w.st.fault) h (fun o ho => ?_) (fun o ho hd => ?_)
    (fun hn => ?_) (fun o ho p => ?_)
  · obtain ⟨n, -, rfl⟩ := Option.map_eq_some_iff.1 ho
    exact .inl ⟨n, rfl⟩
  · obtain ⟨n, rfl, rfl⟩ := Option.map_eq_some_iff.1 ho
    show n ∈ (due w.log).players
    rw [(hleft.resolve_left hd).players]
    exact List.mem_singleton_self n
  · rw [Option.map_eq_none_iff.1 hn] at hleft
    exact hleft
  · obtain ⟨n, rfl, rfl⟩ := Option.map_eq_some_iff.1 ho
    refine hleft.imp_right fun hl => ⟨hl.leases, ?_, hl.accepted, hl.canceled, fun hp => ?_⟩
    · show (due w.log).players.erase n = []
      rw [hl.players]
      simp
    · rw [Bool.and_eq_true] at hp
      show ((due w.log).clean && p) = true ∨ w.st.fault = true
      rw [hp.1, Bool.and_true]
      exact hl.clean hp.2

/-- **The mix is restored.** -/
theorem holds_restoreMix (h : Mid w) {mix : Option ℕ} {clean : Bool}
    (hleft : Disturbed w.log ∨ Left (due w.log) mix.toList [] clean w.st.fault) :
    Holds (outputContract digest b) ctx i (letGo (mix.map .restore) clean) (fun r w' =>
      Parted w w.st.call r w' fun p => Left (due w'.log) [] [] p w.st.fault) w := by
  refine holds_letGo (P := fun p u => Left u [] [] p w.st.fault) h (fun o ho => ?_) (fun o ho hd => ?_)
    (fun hn => ?_) (fun o ho p => ?_)
  · obtain ⟨n, -, rfl⟩ := Option.map_eq_some_iff.1 ho
    exact .inr ⟨n, rfl⟩
  · obtain ⟨n, rfl, rfl⟩ := Option.map_eq_some_iff.1 ho
    show n ∈ (due w.log).leases
    rw [(hleft.resolve_left hd).leases]
    exact List.mem_singleton_self n
  · rw [Option.map_eq_none_iff.1 hn] at hleft
    exact hleft
  · obtain ⟨n, rfl, rfl⟩ := Option.map_eq_some_iff.1 ho
    refine hleft.imp_right fun hl => ⟨?_, hl.players, hl.accepted, hl.canceled, fun hp => ?_⟩
    · show (due w.log).leases.erase n = []
      rw [hl.leases]
      simp
    · rw [Bool.and_eq_true] at hp
      show ((due w.log).clean && p) = true ∨ w.st.fault = true
      rw [hp.1, Bool.and_true]
      exact hl.clean hp.2

/-- What the end of the gateway's call leaves, where it proved `p`. -/
structure Drained (u u' : Due) (p : Bool) : Prop where
  leases : u'.leases = u.leases
  players : u'.players = u.players
  accepted : u'.accepted = false
  canceled : u'.canceled = false
  clean : p = true → u'.clean = u.clean

theorem Mid.failures (h : Mid w) (failures : List Gateway.Failure) :
    Mid (w.put (w.st.change fun c => { c with failures := failures })) :=
  h.change (fun _ => rfl) fun _ => rfl

/-- **The gateway is canceled, and drained.** -/
theorem holds_cancelGateway (h : Mid w) (hc : w.st.call = some c)
    (ho : ¬ Disturbed w.log → (due w.log).accepted = true ∧ (due w.log).canceled = false) :
    Holds (outputContract digest b) ctx i cancelGateway (fun r w' => ∃ failures,
      Parted w (some { c with failures := failures }) r w' fun p => Drained (due w.log) (due w'.log) p) w := by
  have hsame : { w.st.toSlot with call := some { c with failures := c.failures } } = w.st.toSlot := by
    rw [← hc]
  unfold cancelGateway onException
  rw [holds_catching, holds_bind]
  refine (holds_asked h .gatewayCancel ho).mono ?_
  rintro r w₁ ⟨a, hcanceled, hcame⟩
  have hmono₁ : Disturbed w.log → Disturbed w₁.log := fun hd => hcanceled.disturbed.2 (.inr hd)
  have hdue₁ := hcanceled.due
  cases hcame with
  | interrupt =>
    exact ⟨c.failures, hcanceled.toMid, hcanceled.own.trans hsame.symm, hmono₁,
      .inl ⟨rfl, hcanceled.disturbed.2 (.inl rfl)⟩⟩
  | exception ha =>
    rcases ha with rfl | ⟨code, rfl⟩
    · refine ⟨c.failures, hcanceled.toMid, hcanceled.own.trans hsame.symm, hmono₁, .inr ⟨false, rfl, .inr ?_⟩⟩
      rw [hdue₁]
      exact ⟨rfl, rfl, rfl, rfl, fun hp => (by cases hp)⟩
    · cases hcanceled.legal
  | ok hquiet _ =>
    have hdue₁' : due w₁.log = { due w.log with canceled := true } := by
      rw [hdue₁]
      show (if a.raises then _ else _) = _
      rw [hquiet]
      rfl
    dsimp only
    rw [holds_bind]
    refine (holds_asked hcanceled.toMid .gatewayPoll fun _ => trivial).mono ?_
    rintro r w₂ ⟨a₂, hpolled, hcame₂⟩
    have hown₂ : w₂.st.toSlot = w.st.toSlot := hpolled.own.trans hcanceled.own
    have hmono₂ : Disturbed w.log → Disturbed w₂.log := fun hd => hpolled.disturbed.2 (.inr (hmono₁ hd))
    have hdue₂ := hpolled.due
    rw [hdue₁'] at hdue₂
    cases hcame₂ with
    | interrupt =>
      exact ⟨c.failures, hpolled.toMid, hown₂.trans hsame.symm, hmono₂,
        .inl ⟨rfl, hpolled.disturbed.2 (.inl rfl)⟩⟩
    | exception ha =>
      rcases ha with rfl | ⟨code, rfl⟩
      · refine ⟨c.failures, hpolled.toMid, hown₂.trans hsame.symm, hmono₂, .inr ⟨false, rfl, .inr ?_⟩⟩
        rw [hdue₂]
        exact ⟨rfl, rfl, rfl, rfl, fun hp => (by cases hp)⟩
      · cases hpolled.legal
    | ok hquiet₂ _ =>
      -- the poll after the cancellation leaves no call, whatever it gives
      have hdue₂' : due w₂.log = (due w.log).drain true := by
        rw [hdue₂]
        cases a₂ with
        | raised interrupt => cases hquiet₂
        | _ => rfl
      dsimp only
      rw [holds_bind]
      refine (holds_asked hpolled.toMid .gatewayProven fun _ => trivial).mono ?_
      rintro r w₃ ⟨a₃, hproven, hcame₃⟩
      have hown₃ : w₃.st.toSlot = w.st.toSlot := hproven.own.trans hown₂
      have hmono₃ : Disturbed w.log → Disturbed w₃.log := fun hd => hproven.disturbed.2 (.inr (hmono₂ hd))
      have hdue₃ := hproven.due
      rw [hdue₂'] at hdue₃
      have hdrained : Drained (due w.log) (due w₃.log) a₃.isTrue := by
        rw [hdue₃]
        refine ⟨rfl, rfl, rfl, rfl, fun hp => ?_⟩
        show ((due w.log).clean && true && a₃.isTrue) = (due w.log).clean
        rw [hp, Bool.and_true, Bool.and_true]
      cases hcame₃ with
      | interrupt => cases hproven.legal
      | exception ha =>
        rcases ha with rfl | ⟨code, rfl⟩
        · cases hproven.legal
        · cases hproven.legal
      | ok _ _ =>
        dsimp only
        have hkept : ∃ failures, Parted w (some { c with failures := failures }) (Except.ok a₃.isTrue) w₃
            fun p => Drained (due w.log) (due w₃.log) p :=
          ⟨c.failures, hproven.toMid, hown₃.trans hsame.symm, hmono₃, .inr ⟨_, rfl, .inr hdrained⟩⟩
        cases a₂ with
        | result t =>
          cases t with
          | failed failures =>
            have hcall : w₃.st.call = some c := (congrArg Slot.call hown₃).trans hc
            have hfailed : Parted w (some { c with failures := failures }) (Except.ok a₃.isTrue)
                (w₃.put (w₃.st.change fun c => { c with failures := failures }))
                fun p => Drained (due w.log) (due w₃.log) p := by
              refine ⟨hproven.toMid.failures failures, ?_, hmono₃, .inr ⟨_, rfl, .inr hdrained⟩⟩
              show { w₃.st.toSlot with call := w₃.st.call.map fun c : Call => { c with failures := failures } } = _
              rw [hcall, hown₃]
              rfl
            exact ⟨failures, hfailed⟩
          | success x => exact hkept
          | degraded x f => exact hkept
        | _ => exact hkept

theorem holds_held {Q : Except Exc Call → TWorld digest → Prop} (hc : w.st.call = some c) (hq : Q (.ok c) w) :
    Holds (outputContract digest b) ctx i held Q w := by
  unfold held
  rw [holds_bind, holds_read]
  dsimp only [id]
  rw [hc]
  exact hq

/-- **What `_cleanup` leaves.** -/
structure Cleaned (w : TWorld digest) (r : Except Exc Bool) (w' : TWorld digest) : Prop extends Mid w' where
  own : ∃ c', w'.st.toSlot = { w.st.toSlot with call := some c' } ∧
    ((r = .error .interrupt ∧ Disturbed w'.log) ∨ ∃ clean, r = .ok clean ∧
      c'.gatewayOwned = false ∧ c'.player = none ∧ c'.mix = none ∧
        (Disturbed w'.log ∨ Left (due w'.log) [] [] clean w.st.fault))

/-- **`_cleanup` lets go of all**, also where a part of it is not clean. -/
theorem holds_cleanup (h : Mid w) (hc : w.st.call = some c)
    (hs : Disturbed w.log ∨ Sound (due w.log) (some c) w.st.fault) :
    Holds (outputContract digest b) ctx i cleanup (Cleaned w) w := by
  -- the player and the mix, from where the gateway's part has come to
  have hrest : ∀ {w₁ : TWorld digest} {c₁ : Call} {clean : Bool}, Mid w₁ →
      w₁.st.toSlot = { w.st.toSlot with call := some c₁ } → c₁.gatewayOwned = false →
      (Disturbed w₁.log ∨ Left (due w₁.log) c.mix.toList c.player.toList clean w.st.fault) →
      Holds (outputContract digest b) ctx i (do
        let clean ← letGo (c.player.map .cancel) clean
        let clean ← letGo (c.mix.map .restore) clean
        change fun c => { c with player := none, mix := none }
        pure clean) (Cleaned w) w₁ := by
    intro w₁ c₁ clean h₁ hown₁ hgateway hleft
    have hfault₁ : w₁.st.fault = w.st.fault := (congrArg Slot.fault hown₁ :)
    rw [holds_bind]
    rw [← hfault₁] at hleft
    refine (holds_cancelPlayer h₁ hleft).mono fun r w₂ hplayer => ?_
    have hown₂ : w₂.st.toSlot = { w.st.toSlot with call := some c₁ } := by
      rw [hplayer.own, hown₁]
    rcases hplayer.ended with ⟨rfl, hd⟩ | ⟨clean₂, rfl, hleft₂⟩
    · exact ⟨hplayer.toMid, c₁, hown₂, .inl ⟨rfl, hd⟩⟩
    have hfault₂ : w₂.st.fault = w₁.st.fault := (congrArg Slot.fault hplayer.own :)
    rw [← hfault₂] at hleft₂
    dsimp only
    rw [holds_bind]
    refine (holds_restoreMix hplayer.toMid hleft₂).mono fun r w₃ hmix => ?_
    have hown₃ : w₃.st.toSlot = { w.st.toSlot with call := some c₁ } := by
      rw [hmix.own, hown₂]
    rcases hmix.ended with ⟨rfl, hd⟩ | ⟨clean₃, rfl, hleft₃⟩
    · exact ⟨hmix.toMid, c₁, hown₃, .inl ⟨rfl, hd⟩⟩
    have hfault₃ : w₂.st.fault = w.st.fault := hfault₂.trans hfault₁
    rw [hfault₃] at hleft₃
    have hcall₃ : w₃.st.call = some c₁ := (congrArg Slot.call hown₃ :)
    dsimp only
    unfold change
    rw [holds_bind, holds_write]
    refine ⟨hmix.toMid.change (fun _ => rfl) fun _ => rfl, { c₁ with player := none, mix := none }, ?_,
      .inr ⟨clean₃, rfl, hgateway, rfl, rfl, hleft₃⟩⟩
    show { w₃.st.toSlot with call := w₃.st.call.map fun c : Call => { c with player := none, mix := none } } = _
    rw [hcall₃, hown₃]
    rfl
  -- what the call knows of its resources
  have hclean : Disturbed w.log ∨ ((!c.unknown && c.synthesisClean) = true →
      (due w.log).clean = true ∨ w.st.fault = true) := by
    refine hs.imp_right fun hs hknown => ?_
    rw [Bool.and_eq_true, Bool.not_eq_true'] at hknown
    rcases hs.clean with hclean | hfault | ⟨c', hc', hunknown | hunclean⟩
    · exact .inl hclean
    · exact .inr hfault
    · cases hc'
      rw [hknown.1] at hunknown
      cases hunknown
    · cases hc'
      rw [hknown.2] at hunclean
      cases hunclean
  unfold cleanup
  rw [holds_bind]
  refine holds_held hc ?_
  dsimp only
  split
  · rename_i howned
    rw [holds_bind]
    have hdue : ¬ Disturbed w.log → (due w.log).accepted = true ∧ (due w.log).canceled = false := by
      intro hd
      have hsound := hs.resolve_left hd
      exact ⟨hsound.accepted.trans howned, hsound.canceled⟩
    refine (holds_cancelGateway h hc hdue).mono ?_
    rintro r w₁ ⟨failures, hgateway⟩
    rcases hgateway.ended with ⟨rfl, hd⟩ | ⟨p, rfl, hdrained⟩
    · exact ⟨hgateway.toMid, _, hgateway.own, .inl ⟨rfl, hd⟩⟩
    have hcall₁ : w₁.st.call = some { c with failures := failures } := (congrArg Slot.call hgateway.own :)
    dsimp only
    unfold change
    rw [holds_bind, holds_write]
    dsimp only
    refine @hrest _ { c with failures := failures, gatewayOwned := false } _
      (hgateway.toMid.change (fun _ => rfl) fun _ => rfl) ?_ rfl ?_
    · show { w₁.st.toSlot with call := w₁.st.call.map fun c : Call => { c with gatewayOwned := false } } = _
      rw [hcall₁, hgateway.own]
      rfl
    · rcases hdrained with hd | hdrained
      · exact .inl hd
      rcases hs with hd | hsound
      · exact .inl (hgateway.disturbed hd)
      rcases hclean with hd | hclean
      · exact .inl (hgateway.disturbed hd)
      refine .inr ⟨hdrained.leases.trans hsound.leases, hdrained.players.trans hsound.players, hdrained.accepted,
        hdrained.canceled, fun hp => ?_⟩
      rw [Bool.and_eq_true] at hp
      show (due w₁.log).clean = true ∨ w.st.fault = true
      rw [hdrained.clean hp.1]
      exact hclean hp.2
  · rename_i howned
    have hunowned : c.gatewayOwned = false := by simpa using howned
    refine @hrest _ c _ h (by rw [← hc]) hunowned ?_
    rcases hs with hd | hsound
    · exact .inl hd
    rcases hclean with hd | hclean
    · exact .inl hd
    exact .inr ⟨hsound.leases, hsound.players, hsound.accepted.trans hunowned, hsound.canceled, hclean⟩

/-! ## `_retire` -/

/-- **What is known between the parts of an operation.** -/
structure Live (w : TWorld digest) : Prop extends Mid w where
  sound : Disturbed w.log ∨ Sound (due w.log) w.st.call w.st.fault

theorem Live.passed (h : Live w) (hp : Passed w r w') : Live w' := by
  refine ⟨hp.toMid, ?_⟩
  have hcall : w'.st.call = w.st.call := (congrArg Slot.call hp.own :)
  have hfault : w'.st.fault = w.st.fault := (congrArg Slot.fault hp.own :)
  rcases h.sound with hd | hs
  · exact .inl (hp.disturbed hd)
  · rw [hp.due, hcall, hfault]
    exact .inr hs

/-- A call whose resources were let go of. -/
structure Released (w : TWorld digest) (c : Call) (clean : Bool) : Prop extends Mid w where
  call : w.st.call = some c
  gateway : c.gatewayOwned = false
  player : c.player = none
  mix : c.mix = none
  left : Disturbed w.log ∨ Left (due w.log) [] [] clean w.st.fault

theorem Released.passed {clean : Bool} (h : Released w c clean) (hp : Passed w r w') : Released w' c clean := by
  have hcall : w'.st.call = w.st.call := (congrArg Slot.call hp.own :)
  have hfault : w'.st.fault = w.st.fault := (congrArg Slot.fault hp.own :)
  refine ⟨hp.toMid, hcall.trans h.call, h.gateway, h.player, h.mix, ?_⟩
  rcases h.left with hd | hl
  · exact .inl (hp.disturbed hd)
  · rw [hp.due, hfault]
    exact .inr hl

/-- Where all was clean, or the fault is latched, the call accounts for what is due. -/
theorem Released.live {clean : Bool} (h : Released w c clean) (hf : clean = false → w.st.fault = true) : Live w := by
  refine ⟨h.toMid, h.left.imp_right fun hl => ?_⟩
  rw [h.call]
  refine ⟨?_, ?_, ?_, hl.canceled, ?_⟩
  · rw [hl.leases]
    show [] = c.mix.toList
    rw [h.mix]
    rfl
  · rw [hl.players]
    show [] = c.player.toList
    rw [h.player]
    rfl
  · rw [hl.accepted]
    exact h.gateway.symm
  · cases clean with
    | true => exact (hl.clean rfl).imp_right .inl
    | false => exact .inr (.inl (hf rfl))

/-- The generation of a call that was started. -/
theorem Born.generation (h : Born log c) : ∃ g, c.generation = some g := by
  obtain ⟨-, -, -, u, -, -, -, hturn, -⟩ := h
  exact ⟨u.token.generation, by unfold Call.generation; rw [hturn]; rfl⟩

/-- **Only the generation that is borrowed is faulted.** -/
theorem holds_faultOwner {clean : Bool} (h : Released w c clean) :
    Holds (outputContract digest b) ctx i faultOwner (fun r w' => Released w' c clean ∧ w'.st.fault = true ∧
      w'.st.phase = w.st.phase ∧ r ≠ .error .interrupt) w := by
  have hlatched : Released (w.put { w.st with fault := true }) c clean := by
    refine ⟨h.toMid.put ?_ rfl h.busy h.born, h.call, h.gateway, h.player, h.mix,
      h.left.imp_right fun hl => ⟨hl.leases, hl.players, hl.accepted, hl.canceled, fun _ => .inr rfl⟩⟩
    have hl := h.linked
    cases hlog : w.log with
    | nil =>
      obtain ⟨_, _, _, _, hborn, _⟩ := h.born c h.call
      rw [hlog] at hborn
      simp at hborn
    | cons m log =>
      rw [hlog] at hl
      exact ⟨fun _ => rfl, hl.owner, hl.published, hl.dropped⟩
  unfold faultOwner
  rw [holds_bind, holds_write]
  dsimp only
  rw [holds_bind]
  refine (holds_gap hlatched.toMid).mono ?_
  rintro r w₁ ⟨rfl, hgap, -, k, l, hlog, hst⟩
  have h₁ := hlatched.passed hgap
  have hfault₁ : w₁.st.fault = true := (congrArg Slot.fault hgap.own :)
  have hphase₁ : w₁.st.phase = w.st.phase := (congrArg Slot.phase hgap.own :)
  dsimp only
  rw [holds_bind]
  refine holds_held h₁.call ?_
  dsimp only
  obtain ⟨g, hg⟩ := (h₁.born c h₁.call).generation
  rw [hg, holds_bind]
  show Holds (outputContract digest b) ctx i (Prog.read TtsOutput.owner >>= _) _ w₁
  rw [holds_bind, holds_read]
  dsimp only
  cases hr : w₁.st.owner.release (some g) (some false) with
  | error x =>
    cases x with
    | value => exact ⟨h₁, hfault₁, hphase₁, by simp⟩
    | busy => exact ⟨h₁, hfault₁, hphase₁, by simp⟩
    | stale => exact ⟨h₁, hfault₁, hphase₁, by simp⟩
    | faulted => exact ⟨h₁, hfault₁, hphase₁, by simp⟩
  | ok o =>
    obtain ⟨howner, -, rfl⟩ := release_nat hr
    have hlinked : Linked w₁.log { w₁.st with owner := { w₁.st.owner with state := .faulted } } := by
      rw [hlog, ← hst]
      refine ⟨id, .inr (.inr ⟨c, g, ?_, hg, ?_, rfl⟩), fun c hc => .inl hc, fun hm hd => absurd hd hm⟩
      · rw [hst]
        exact h₁.call
      · rw [hst]
        exact howner
    exact ⟨⟨h₁.toMid.put hlinked rfl h₁.busy h₁.born, h₁.call, h₁.gateway, h₁.player, h₁.mix, h₁.left⟩, hfault₁,
      hphase₁, by simp⟩

/-- The code of a success is published only where the call is neither canceled nor stale. -/
theorem finalCode_spec {clean : Bool} {code : Code} (h : (finalCode d c clean code).success) :
    code.success ∧ (clean = true → c.epoch = d.epoch ∧ d.owner.accepts (c.generation.map Int.ofNat) = true) := by
  unfold finalCode at h
  split at h
  · rcases h with h | h <;> cases h
  rename_i hepoch
  split at h
  · rcases h with h | h <;> cases h
  rename_i haccepted
  refine ⟨h, fun hclean => ?_⟩
  subst hclean
  exact ⟨by simpa using hepoch, by simpa using haccepted⟩

theorem Completion.make_spec {x y : Completion} (h : x.make = some y) : y = x := by
  unfold Completion.make at h
  split at h
  · cases h
    rfl
  · cases h

/-- **The end of `_retire`**: the completion is published, and the call is dropped. -/
theorem Released.publish {clean : Bool} {code : Code} (h : Released w c clean)
    (hp : w.st.phase ≠ .synthesizing) (hf : clean = false → w.st.fault = true) (hcode : clean = true → code.success → Checked w.log c) :
    Holds (outputContract digest b) ctx i (do
      let call ← held
      let completion ← expect .value (call.completion (if clean then code else .cleanup)).make
      gap
      Prog.write fun d => d.publish { completion with code := finalCode d call clean completion.code }
      gap) (fun r w' => Live w' ∧ w'.st.phase ≠ .synthesizing ∧ (r = .error .interrupt → Disturbed w'.log)) w := by
  rw [holds_bind]
  refine holds_held h.call ?_
  dsimp only
  rw [holds_bind]
  cases hmake : (c.completion (if clean then code else .cleanup)).make with
  | none => exact ⟨h.live hf, hp, fun he => (by cases he)⟩
  | some completion =>
    obtain rfl := Completion.make_spec hmake
    show Holds (outputContract digest b) ctx i (do
      gap
      Prog.write fun d => d.publish
        { c.completion (if clean then code else .cleanup) with
          code := finalCode d c clean (if clean then code else .cleanup) }
      gap) _ w
    rw [holds_bind]
    refine (holds_gap h.toMid).mono ?_
    rintro r w₁ ⟨rfl, hgap, hothers, k, l, hlog, hst⟩
    have h₁ := h.passed hgap
    have hfault₁ : w₁.st.fault = w.st.fault := (congrArg Slot.fault hgap.own :)
    have hborn := h₁.born c h₁.call
    obtain ⟨g, hg⟩ := hborn.generation
    dsimp only
    rw [holds_bind, holds_write]
    dsimp only
    -- what is published as a success was fresh at the last check, and is not canceled now
    have hproper : (finalCode w₁.st c clean (if clean then code else .cleanup)).success →
        Proper w₁.log k w₁.st.owner := by
      intro hs
      obtain ⟨hsuccess, hcalm⟩ := finalCode_spec hs
      have hclean : clean = true := by
        by_contra hne
        rw [if_neg hne] at hsuccess
        rcases hsuccess with hc | hc <;> cases hc
      rw [if_pos hclean] at hsuccess
      obtain ⟨hepoch, haccepted⟩ := hcalm hclean
      rw [hg] at haccepted
      obtain ⟨hsample, candidate, p, hpolicy, hstate⟩ := hcode hclean hsuccess
      refine ⟨c, g, by rw [hst]; exact h₁.call, hg, haccepted, hepoch.trans h₁.count, hborn, ?_, candidate, p,
        hpolicy, ?_⟩
      · rw [hothers .sample (by simp)]
        exact hsample
      · rw [hothers .state (by simp)]
        exact hstate
    have hlinked : Linked w₁.log (w₁.st.publish
        { c.completion (if clean then code else .cleanup) with
          code := finalCode w₁.st c clean (if clean then code else .cleanup) }) := by
      rw [hlog] at hproper ⊢
      refine ⟨fun hf => ?_, .inl (by rw [hst]; rfl), fun x hx => .inr fun hs => ?_, fun _ _ => ?_⟩
      · rw [hst] at hf
        exact hf
      · cases hx
        exact hproper hs
      · rw [← hlog]
        exact h₁.left.imp_right fun hl => ⟨hl.leases, hl.players, hl.accepted⟩
    have hdropped : Live (w₁.put (w₁.st.publish
        { c.completion (if clean then code else .cleanup) with
          code := finalCode w₁.st c clean (if clean then code else .cleanup) })) := by
      refine ⟨h₁.toMid.put hlinked rfl h₁.busy fun c hc => (by cases hc), h₁.left.imp_right fun hl => ?_⟩
      refine ⟨hl.leases, hl.players, hl.accepted, hl.canceled, ?_⟩
      cases clean with
      | true => exact (hl.clean rfl).imp_right .inl
      | false => exact .inr (.inl (hfault₁.trans (hf rfl)))
    refine (holds_gap hdropped.toMid).mono ?_
    rintro r w₂ ⟨rfl, hgap₂, -⟩
    refine ⟨hdropped.passed hgap₂, ?_, fun he => (by cases he)⟩
    have hphase : w₂.st.phase = if w₁.st.fault then .faulted else .idle := (congrArg Slot.phase hgap₂.own :)
    rw [hphase]
    split <;> simp

/-- **`_retire`.** -/
theorem holds_retire (h : Live w) (hc : w.st.call = some c) (code : Code) :
    Holds (outputContract digest b) ctx i (retire code) (fun r w' => Live w' ∧ w'.st.phase ≠ .synthesizing ∧
      (r = .error .interrupt → Disturbed w'.log)) w := by
  have hbegun : Live (w.put { w.st with phase := .stopping }) :=
    ⟨h.toMid.keep rfl rfl rfl rfl h.busy id h.born, h.sound⟩
  have hsound : Disturbed w.log ∨ Sound (due w.log) (some c) w.st.fault := hc ▸ h.sound
  unfold retire
  rw [holds_bind, holds_write]
  dsimp only
  rw [holds_bind]
  refine (holds_cleanup hbegun.toMid hc hsound).mono fun r w₁ hcleaned => ?_
  obtain ⟨c', hown, hended⟩ := hcleaned.own
  have hphase₁ : w₁.st.phase ≠ .synthesizing := by
    rw [show w₁.st.phase = .stopping from (congrArg Slot.phase hown :)]
    simp
  rcases hended with ⟨rfl, hd⟩ | ⟨clean, rfl, hgateway, hplayer, hmix, hleft⟩
  · exact ⟨⟨hcleaned.toMid, .inl hd⟩, hphase₁, fun _ => hd⟩
  have hcall₁ : w₁.st.call = some c' := (congrArg Slot.call hown :)
  have hfault₁ : w₁.st.fault = w.st.fault := (congrArg Slot.fault hown :)
  have h₁ : Released w₁ c' clean := by
    refine ⟨hcleaned.toMid, hcall₁, hgateway, hplayer, hmix, ?_⟩
    rw [hfault₁]
    exact hleft
  dsimp only
  rw [holds_bind]
  refine (holds_recheck h₁.toMid code).mono fun r w₂ ⟨hpass, hraised, hfresh⟩ => ?_
  have h₂ := h₁.passed hpass
  have hphase₂ : w₂.st.phase ≠ .synthesizing := by
    rw [show w₂.st.phase = w₁.st.phase from (congrArg Slot.phase hpass.own :)]
    exact hphase₁
  cases r with
  | error e =>
    obtain rfl := hraised e rfl
    have hd := hpass.interrupt rfl
    exact ⟨⟨h₂.toMid, .inl hd⟩, hphase₂, fun _ => hd⟩
  | ok code' =>
    dsimp only
    cases clean with
    | true =>
      rw [if_neg (by simp)]
      refine (h₂.publish hphase₂ (fun hf => (by cases hf)) fun _ hs => ?_).mono fun r w₃ h₃ => h₃
      obtain ⟨x, hx, hchecked⟩ := hfresh code' rfl hs
      rw [h₂.call] at hx
      cases hx
      exact hchecked
    | false =>
      rw [if_pos (by simp), holds_bind]
      refine (holds_faultOwner h₂).mono fun r w₃ ⟨h₃, hfault, hphase₃, hcalm⟩ => ?_
      rw [← hphase₃] at hphase₂
      cases r with
      | error e => exact ⟨h₃.live fun _ => hfault, hphase₂, fun he => absurd he hcalm⟩
      | ok _ =>
        exact (h₃.publish hphase₂ (fun _ => hfault) fun hf => (by cases hf)).mono fun r w₄ h₄ => h₄

end Tts

end Arhugula
