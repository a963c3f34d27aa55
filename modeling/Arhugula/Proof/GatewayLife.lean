import Arhugula.Proof.GatewaySteps

/-!
# The life of a call

What every path of steps keeps: each accepted call is active, or has stored exactly one
terminal; each stored terminal waits, or was delivered, in the order in which the calls
were accepted (`Life`). What a `begin` returned is owned by the active call, or cleaned up,
or the client is unclean and stays so (`Books`). A fault is never forgotten (`Latched`).
-/

namespace Arhugula

namespace Gateway

open Reentrant Providers

variable {digest : Manifest → String} {codec : Codec} {s₀ : Sys digest} {w w' : GWorld digest}

/-- **Induction over paths.** -/
theorem Path.induction {P : GWorld digest → Prop} (h0 : P ⟨s₀, [], 0⟩)
    (hstep : ∀ w w', Path codec s₀ w → P w → Step codec w w' → P w') (h : Path codec s₀ w) : P w := by
  induction h with
  | start => exact h0
  | step hp hs ih => exact hstep _ _ hp ih hs

/-! ## Acceptance, storing, delivery -/

/-- The calls that were accepted, newest first. -/
def accepted (trail : List Mark) : List String :=
  trail.filterMap fun
    | .accepted id => some id
    | _ => none

/-- The terminals that were stored, each with its call. -/
def stored (trail : List Mark) : List (String × Terminal) :=
  trail.filterMap fun
    | .stored id t => some (id, t)
    | _ => none

/-- The terminals that were delivered, each with its call. -/
def delivered (trail : List Mark) : List (String × Terminal) :=
  trail.filterMap fun
    | .delivered id t => some (id, t)
    | _ => none

/-- The terminals that polls returned, newest first. -/
def returned (log : List (GEntry digest)) : List Terminal :=
  log.filterMap fun e => match e.act with
    | .ret (.ok (.terminal t)) => t
    | _ => none

/-- The active call. -/
def activeId (s : Sys digest) : Option String := s.client.active.map fun c => c.request.requestId

/-- **The life of the calls.** -/
structure Life (s : Sys digest) : Prop where
  accepted : accepted s.trail = s.client.history
  fresh : s.client.history.Nodup
  stored : s.client.history = (activeId s).toList ++ (stored s.trail).map Prod.fst
  waiting : ∃ l, Gateway.stored s.trail = l ++ delivered s.trail ∧ l.map Prod.snd = s.client.terminal.toList
  exclusive : s.client.active.isSome → s.client.terminal = none

/-- Nothing that matters for the life of the calls is different. -/
structure SameLife (s s' : Sys digest) : Prop where
  history : s'.client.history = s.client.history
  active : activeId s' = activeId s
  terminal : s'.client.terminal = s.client.terminal
  accepted : accepted s'.trail = accepted s.trail
  stored : stored s'.trail = stored s.trail
  delivered : delivered s'.trail = delivered s.trail

theorem Life.same {s s' : Sys digest} (h : Life s) (hs : SameLife s s') : Life s' where
  accepted := by rw [hs.accepted, hs.history]; exact h.accepted
  fresh := by rw [hs.history]; exact h.fresh
  stored := by rw [hs.history, hs.active, hs.stored]; exact h.stored
  waiting := by rw [hs.stored, hs.delivered, hs.terminal]; exact h.waiting
  exclusive ha := by
    have hsome : s.client.active.isSome := by
      have := congrArg Option.isSome hs.active
      simpa [activeId, ha] using this.symm
    rw [hs.terminal]
    exact h.exclusive hsome

theorem activeId_change (s : Sys digest) {f : Call → Call}
    (hf : ∀ c, (f c).request.requestId = c.request.requestId) :
    activeId (s.onClient (.change f)) = activeId s := by
  unfold activeId
  show (s.client.active.map f).map _ = _
  rw [Option.map_map]
  exact congrArg (fun g => s.client.active.map g) (funext hf)

theorem SameLife.rfl' {s s' : Sys digest} (hc : s'.client.history = s.client.history)
    (ha : activeId s' = activeId s) (ht : s'.client.terminal = s.client.terminal)
    (hm : s'.trail = s.trail) : SameLife s s' :=
  ⟨hc, ha, ht, by rw [hm], by rw [hm], by rw [hm]⟩

/-- The call that stored last. -/
theorem waiting_eq {s : Sys digest} {id : String} {t : Terminal} {l : List (String × Terminal)}
    (h : stored s.trail = (id, t) :: l) : s.waiting = id := by
  have key : ∀ trail : List Mark, stored trail = (id, t) :: l →
      trail.findSome? Mark.storedId = some id := by
    intro trail
    induction trail with
    | nil => intro h; cases h
    | cons m rest ih =>
      intro h
      cases m with
      | stored id' t' =>
        simp only [stored, List.filterMap_cons, List.cons.injEq, Prod.mk.injEq] at h
        show some id' = some id
        rw [h.1.1]
      | _ => exact ih h
  unfold Sys.waiting
  rw [key s.trail h]
  rfl

/-- The life of the calls, and what the polls returned. -/
structure Lives (w : GWorld digest) : Prop where
  life : Life w.st
  returned : returned w.log = (delivered w.st.trail).map Prod.snd

theorem Lives.same (h : Lives w) {s : Sys digest} (hs : SameLife w.st s) : Lives (w.put s) :=
  ⟨h.life.same hs, by rw [World.put_log, World.put_st, hs.delivered]; exact h.returned⟩

theorem Lives.push (h : Lives w) (i : ℕ) {x : Act Op Answer Exc Method Return}
    (hx : ∀ t, x ≠ .ret (.ok (.terminal (some t)))) : Lives (w.push i x) := by
  refine ⟨h.life, ?_⟩
  rw [World.push_log, World.push_st, ← h.returned]
  unfold Gateway.returned
  rw [List.filterMap_cons]
  split
  · rfl
  · rename_i t heq
    split at heq
    · rename_i t' hact
      dsimp only at hact
      subst heq
      exact absurd hact (hx t)
    · cases heq

theorem lives_step (hs : Step codec w w') (h : Lives w) : Lives w' := by
  cases hs with
  | enter m =>
    have := h.push w.next (x := .invoke m) (by intro t hx; cases hx)
    exact ⟨this.life, this.returned⟩
  | ret i r hr _ => exact h.push i (by intro t hx; cases hx; exact hr _ rfl)
  | refuse i _ _ => exact h.push i (by intro t hx; cases hx)
  | deliver i _ _ hact _ =>
    cases ht : w.st.client.terminal with
    | none =>
      have hst : w.st.deliver = w.st := by unfold Sys.deliver; rw [ht]
      rw [hst]
      exact h.push i (by intro t hx; cases hx)
    | some t =>
      have hnone := hact (by rw [ht]; rfl)
      obtain ⟨l, hl, hlt⟩ := h.life.waiting
      rw [ht] at hlt
      obtain ⟨⟨id, t'⟩, rfl⟩ : ∃ x, l = [x] := by
        cases l with
        | nil => cases hlt
        | cons x rest =>
          cases rest with
          | nil => exact ⟨x, rfl⟩
          | cons _ _ => simp at hlt
      obtain rfl : t' = t := by simpa using hlt
      have hst : w.st.deliver = (w.st.onClient fun c => { c with terminal := none }).mark
          (.delivered id t') := by
        unfold Sys.deliver
        rw [ht, waiting_eq hl]
      rw [hst]
      refine ⟨⟨h.life.accepted, h.life.fresh, h.life.stored, ⟨[], ?_, rfl⟩, fun _ => rfl⟩, ?_⟩
      · exact hl
      · show t' :: returned w.log = t' :: (delivered w.st.trail).map Prod.snd
        rw [h.returned]
  | ask i op _ => exact h.push i (by intro t hx; cases hx)
  | answer i op a _ => exact h.push i (by intro t hx; cases hx)
  | inside b => exact h.same (.rfl' rfl rfl rfl rfl)
  | configuring b => exact h.same (.rfl' rfl rfl rfl rfl)
  | flag d x => exact h.same (.rfl' rfl (activeId_change w.st fun _ => rfl) rfl rfl)
  | accept r hidle hd hr =>
    have hactive : activeId w.st = none := by unfold activeId; rw [hidle.active]; rfl
    have hstored := h.life.stored
    rw [hactive] at hstored
    refine ⟨⟨?_, List.nodup_cons.2 ⟨hr, h.life.fresh⟩, ?_, h.life.waiting, fun _ => hidle.terminal⟩,
      h.returned⟩
    · show r.requestId :: accepted w.st.trail = r.requestId :: w.st.client.history
      rw [h.life.accepted]
    · show r.requestId :: w.st.client.history = r.requestId :: (stored w.st.trail).map Prod.fst
      rw [hstored]
      rfl
  | tick c now _ _ _ => exact h.same (.rfl' rfl (activeId_change w.st fun _ => rfl) rfl rfl)
  | latch code => exact h.same (.rfl' rfl rfl rfl rfl)
  | route c hc _ =>
    refine h.same (.rfl' rfl ?_ rfl rfl)
    unfold activeId
    show (w.st.client.active.map _).map _ = w.st.client.active.map _
    rw [hc]
    rfl
  | soil c _ => exact h.same (.rfl' rfl rfl rfl rfl)
  | absolve c _ _ _ _ => exact h.same (.rfl' rfl rfl rfl rfl)
  | launch i c op _ _ => exact h.push i (by intro t hx; cases hx)
  | began i c op a _ _ _ _ _ => exact h.push i (by intro t hx; cases hx)
  | adopt i c op a s rest _ _ _ _ _ _ _ _ _ =>
    exact h.same (.rfl' rfl (activeId_change w.st fun _ => rfl) rfl rfl)
  | finishing c v _ =>
    exact h.same ⟨rfl, activeId_change w.st fun _ => rfl, rfl, rfl, rfl, rfl⟩
  | cancel i c j _ _ _ => exact h.push i (by intro t hx; cases hx)
  | canceled i c j a _ _ _ => exact h.push i (by intro t hx; cases hx)
  | fallBack c hh l f _ => exact h.same (.rfl' rfl (activeId_change w.st fun _ => rfl) rfl rfl)
  | store c t hst =>
    have hactive : activeId w.st = some c.request.requestId := by
      unfold activeId; rw [hst.active]; rfl
    have hstored := h.life.stored
    rw [hactive] at hstored
    obtain ⟨l, hl, hlt⟩ := h.life.waiting
    have hterm := h.life.exclusive (by rw [hst.active]; rfl)
    rw [hterm] at hlt
    obtain rfl : l = [] := by simpa using hlt
    refine ⟨⟨h.life.accepted, h.life.fresh, hstored, ⟨[(c.request.requestId, t)], ?_, rfl⟩, ?_⟩, h.returned⟩
    · show (c.request.requestId, t) :: stored w.st.trail = [(c.request.requestId, t)] ++ delivered w.st.trail
      rw [hl]
      rfl
    · intro hsome
      cases hsome
  | claim _ _ => exact h.same (.rfl' rfl rfl rfl rfl)
  | rebind host localRoute f _ _ => exact h.same (.rfl' rfl rfl rfl rfl)
  | time c now _ => exact h.same (.rfl' rfl rfl rfl rfl)
  | operate i m s r rest hm _ hop =>
    have hput : Lives (w.put s) := by
      cases hop <;> first | exact h | exact h.same (.rfl' rfl rfl rfl rfl)
    exact hput.push i (by intro t hx; cases hx; cases hop)
  | disable i c s rest _ _ _ _ _ => exact h.same (.rfl' rfl (activeId_change w.st fun _ => rfl) rfl rfl)

/-! ## What was begun, and what it owes -/

theorem debts_other (log : List (GEntry digest)) (i : ℕ) {x : Act Op Answer Exc Method Return}
    (s : Sys digest) (hx : ∀ op a, x = .reply op a → op.quiet = true) :
    debts (⟨i, x, s⟩ :: log) = debts log := by
  cases x with
  | reply op a =>
    have hop := hx op a rfl
    cases op <;> first | rfl | cases hop
  | _ => rfl

theorem debts_begin (log : List (GEntry digest)) (i : ℕ) {op : Op} (a : Answer) (s : Sys digest)
    (hop : op.begins.isSome) :
    debts (⟨i, .reply op a, s⟩ :: log) = (match a with
      | .remote _ => debts log
      | a => a.toJob :: debts log) := by
  cases a <;> exact if_pos hop

theorem debts_cancel (log : List (GEntry digest)) (i j : ℕ) (a : Answer) (s : Sys digest) :
    debts (⟨i, .reply (.cancel j) a, s⟩ :: log) = (if a = .truth true then
      (debts log).filter fun d => d ≠ some j else debts log) := by
  cases a with
  | truth b => cases b <;> rfl
  | _ => rfl

/-- A failure with code `cleanup` was accepted. -/
def Dirty (s : Sys digest) : Prop :=
  ∃ id f, .finishing id (.failure f) ∈ s.trail ∧ f.code = .cleanup

/-- **The books**: what was begun is owned by the active call, or cleaned up, or the client
is unclean. -/
structure Books (w : GWorld digest) : Prop where
  few : (debts w.log).length ≤ 1
  clean : w.st.client.unclean = false → debts w.log = [] ∧ ¬ Dirty w.st
  owned : ∀ c, w.st.client.active = some c → ∀ j, c.job = some j →
    debts w.log = [some j] ∧ w.st.client.unclean = true ∧ ¬ Dirty w.st
  idle : w.st.client.active = none → w.st.client.fault = none → w.st.client.unclean = false

/-- The job and the cleanup of the client are the same, and no failure is new. -/
structure SameBooks (s s' : Sys digest) : Prop where
  unclean : s'.client.unclean = s.client.unclean
  active : s'.client.active = none → s.client.active = none
  job : ∀ c', s'.client.active = some c' → ∃ c, s.client.active = some c ∧ c'.job = c.job
  fault : s'.client.fault = none → s.client.fault = none
  dirty : Dirty s' → Dirty s

theorem Books.same (h : Books w) {s : Sys digest} (hs : SameBooks w.st s) : Books (w.put s) where
  few := h.few
  clean hu := by
    rw [World.put_st, hs.unclean] at hu
    exact ⟨(h.clean hu).1, fun hd => (h.clean hu).2 (hs.dirty hd)⟩
  owned c' hc' j hj := by
    obtain ⟨c, hc, heq⟩ := hs.job c' hc'
    obtain ⟨hd, hu, hdirty⟩ := h.owned c hc j (heq ▸ hj)
    exact ⟨hd, hs.unclean.trans hu, fun hd => hdirty (hs.dirty hd)⟩
  idle ha hf := hs.unclean.trans (h.idle (hs.active ha) (hs.fault hf))

theorem Books.push (h : Books w) (i : ℕ) {x : Act Op Answer Exc Method Return}
    (hx : ∀ op a, x = .reply op a → op.quiet = true) : Books (w.push i x) := by
  have hd : debts (w.push i x).log = debts w.log := debts_other w.log i w.st hx
  exact ⟨by rw [hd]; exact h.few, fun hu => by rw [hd]; exact h.clean hu,
    fun c hc j hj => by rw [hd]; exact h.owned c hc j hj, h.idle⟩

theorem sameBooks_of {s s' : Sys digest} (hu : s'.client.unclean = s.client.unclean)
    (ha : s'.client.active = s.client.active) (hf : s'.client.fault = none → s.client.fault = none)
    (ht : s'.trail = s.trail) : SameBooks s s' :=
  ⟨hu, fun h => ha ▸ h, fun c' h => ⟨c', ha ▸ h, rfl⟩, hf, fun hd => by unfold Dirty at hd ⊢; rwa [← ht]⟩

theorem sameBooks_change (s : Sys digest) {f : Call → Call} (hf : ∀ c, (f c).job = c.job) :
    SameBooks s (s.onClient (.change f)) := by
  refine ⟨rfl, fun h => ?_, fun c' h => ?_, id, id⟩
  · exact Option.map_eq_none_iff.1 h
  · obtain ⟨c, hc, rfl⟩ := Option.map_eq_some_iff.1 h
    exact ⟨c, hc, hf c⟩

theorem books_step (hs : Step codec w w') (h : Books w) : Books w' := by
  cases hs with
  | enter m =>
    have := h.push w.next (x := .invoke m) (by intro op a hx; cases hx)
    exact ⟨this.few, this.clean, this.owned, this.idle⟩
  | ret i r _ _ => exact h.push i (by intro op a hx; cases hx)
  | refuse i _ _ => exact h.push i (by intro op a hx; cases hx)
  | deliver i _ _ _ _ =>
    have hsame : SameBooks w.st w.st.deliver := by
      unfold Sys.deliver
      split
      · exact sameBooks_of rfl rfl id rfl
      · refine ⟨rfl, id, fun c' h => ⟨c', h, rfl⟩, id, ?_⟩
        rintro ⟨id, f, hm, hf⟩
        exact ⟨id, f, by simpa [Sys.mark, Sys.onClient] using hm, hf⟩
    exact (h.same hsame).push i (by intro op a hx; cases hx)
  | ask i op _ => exact h.push i (by intro op a hx; cases hx)
  | answer i op a hop => exact h.push i (by intro op' a' hx; cases hx; exact hop)
  | inside b => exact h.same (sameBooks_of rfl rfl id rfl)
  | configuring b => exact h.same (sameBooks_of rfl rfl id rfl)
  | flag d x =>
    have := sameBooks_change w.st (f := fun c => { c with cancelRequested := c.cancelRequested || x })
      fun _ => rfl
    exact h.same ⟨rfl, this.active, this.job, id, id⟩
  | accept r hidle hd hr =>
    have hu : w.st.client.unclean = false := h.idle hidle.active hidle.fault
    obtain ⟨hdebts, hdirty⟩ := h.clean hu
    have hdirty' : ¬ Dirty ((w.st.onClient (.accept r)).mark (.accepted r.requestId)) := by
      rintro ⟨id, f, hm, hf⟩
      exact hdirty ⟨id, f, by simpa [Sys.mark, Sys.onClient] using hm, hf⟩
    refine ⟨h.few, fun _ => ⟨hdebts, hdirty'⟩, fun c hc j hj => ?_, (by intro ha; cases ha)⟩
    cases hc
    cases hj
  | tick c now _ _ _ => exact h.same (sameBooks_change _ fun _ => rfl)
  | latch code => exact h.same (sameBooks_of rfl rfl (fun hf => by cases hf) rfl)
  | route c hc hj => exact h.same (sameBooks_change _ fun _ => rfl)
  | soil c hc =>
    refine ⟨h.few, (by intro hu; cases hu), fun c' hc' j hj => ?_, fun ha => ?_⟩
    · obtain ⟨hd, -, hdirty⟩ := h.owned c' hc' j hj
      exact ⟨hd, rfl, hdirty⟩
    · exact absurd (hc.symm.trans ha) (by simp)
  | absolve c hc hj hd hm =>
    refine ⟨h.few, fun _ => ⟨hd, ?_⟩, fun c' hc' j hj' => ?_, fun _ _ => rfl⟩
    · rintro ⟨id, f, hmem, hf⟩
      exact hm id f hmem hf
    · obtain rfl : c = c' := Option.some_inj.1 (hc.symm.trans hc')
      rw [hj] at hj'
      cases hj'
  | launch i c op _ _ => exact h.push i (by intro op a hx; cases hx)
  | began i c op a hop hc hj hu hd =>
    have hlog : debts (w.push i (.reply op a)).log = (match a with
        | .remote _ => debts w.log
        | a => a.toJob :: debts w.log) := debts_begin w.log i a w.st hop
    refine ⟨?_, fun hu' => ?_, fun c' hc' j hj' => ?_, fun ha => ?_⟩
    · rw [hlog, hd]
      cases a <;> simp
    · exact absurd (hu.symm.trans hu') (by simp)
    · obtain rfl : c = c' := Option.some_inj.1 (hc.symm.trans hc')
      rw [hj] at hj'
      cases hj'
    · exact absurd (hc.symm.trans ha) (by simp)
  | adopt i c op a s rest hc hj hlog hop ha hd hu hm hl =>
    have hdebts : debts w.log = [a.toJob] := by
      rw [hlog, debts_begin rest i a s hop, hd]
      cases a with
      | remote code => exact absurd rfl (ha code)
      | _ => rfl
    refine ⟨h.few, fun hu' => absurd (hu.symm.trans hu') (by simp), fun c' hc' j hj' => ?_, fun ha' => ?_⟩
    · obtain ⟨c'', hc'', rfl⟩ := Option.map_eq_some_iff.1 hc'
      refine ⟨by rw [World.put_log, hdebts]; exact congrArg (fun x => [x]) hj', hu, ?_⟩
      rintro ⟨id, f, hmem, hf⟩
      exact hm id f hmem hf
    · exact absurd (Option.map_eq_none_iff.1 ha') (by rw [hc]; simp)
  | finishing c v hc =>
    refine ⟨h.few, fun hu => ?_, fun c' hc' j hj => ?_, fun ha => ?_⟩
    · -- still clean: no failure with code `cleanup` is accepted here
      obtain ⟨hu, hv⟩ : w.st.client.unclean = false ∧ v.isCleanup = false :=
        Bool.or_eq_false_iff.1 hu
      refine ⟨(h.clean hu).1, ?_⟩
      rintro ⟨id, f, hmem, hf⟩
      rcases List.mem_cons.1 hmem with heq | hmem
      · cases heq
        simp [Value.isCleanup, hf] at hv
      · exact (h.clean hu).2 ⟨id, f, hmem, hf⟩
    · obtain ⟨c'', -, rfl⟩ := Option.map_eq_some_iff.1 hc'
      cases hj
    · exact absurd (Option.map_eq_none_iff.1 ha) (by rw [hc]; simp)
  | cancel i c j _ _ _ => exact h.push i (by intro op a hx; cases hx)
  | canceled i c j a hc hj hu =>
    have hlog : debts (w.push i (.reply (.cancel j) a)).log = (if a = .truth true then
        (debts w.log).filter fun d => d ≠ some j else debts w.log) := debts_cancel w.log i j a w.st
    refine ⟨?_, fun hu' => absurd (hu.symm.trans hu') (by simp), fun c' hc' k hk => ?_,
      fun ha => absurd (hc.symm.trans ha) (by simp)⟩
    · rw [hlog]
      split
      · exact (List.length_filter_le _ _).trans h.few
      · exact h.few
    · obtain rfl : c = c' := Option.some_inj.1 (hc.symm.trans hc')
      rw [hj] at hk
      cases hk
  | fallBack c hh l f _ => exact h.same (sameBooks_change _ fun _ => rfl)
  | store c t hst =>
    have hdirty : Dirty (w.st.store c.request.requestId t) → Dirty w.st := by
      rintro ⟨id, f, hm, hf⟩
      exact ⟨id, f, by simpa [Sys.store, Sys.mark, Sys.onClient] using hm, hf⟩
    exact ⟨h.few, fun hu => ⟨(h.clean hu).1, fun hd => (h.clean hu).2 (hdirty hd)⟩,
      (by intro c' hc'; cases hc'), fun _ hf => hst.clean hf⟩
  | claim _ _ => exact h.same (sameBooks_of rfl rfl id rfl)
  | rebind host localRoute f _ _ => exact h.same (sameBooks_of rfl rfl id rfl)
  | time c now _ => exact h.same (sameBooks_of rfl rfl id rfl)
  | operate i m s r rest _ _ hop =>
    have hput : Books (w.put s) := by
      cases hop <;> first | exact h | exact h.same (sameBooks_of rfl rfl id rfl)
    exact hput.push i (by intro op a hx; cases hx)
  | disable i c s rest _ _ _ _ _ =>
    have := sameBooks_change w.st (f := fun c => { c with cancelRequested := c.cancelRequested || false })
      fun _ => rfl
    exact h.same ⟨rfl, this.active, this.job, id, id⟩

/-! ## Faults -/

/-- **No fault is forgotten**, and no call is accepted after one. -/
def Latched (w : GWorld digest) : Prop :=
  ∀ e ∈ w.log, e.st.client.fault ≠ none →
    w.st.client.fault ≠ none ∧ w.st.client.history = e.st.client.history

theorem Latched.put (h : Latched w) {s : Sys digest}
    (hf : s.client.fault = none → w.st.client.fault = none)
    (hh : s.client.history = w.st.client.history) : Latched (w.put s) :=
  fun e he hne => ⟨fun hs => (h e he hne).1 (hf hs), hh.trans (h e he hne).2⟩

theorem Latched.push (h : Latched w) (i : ℕ) (x : Act Op Answer Exc Method Return) :
    Latched (w.push i x) := by
  intro e he hne
  rcases List.mem_cons.1 he with rfl | he
  · exact ⟨hne, rfl⟩
  · exact h e he hne

theorem latched_step (hs : Step codec w w') (h : Latched w) : Latched w' := by
  cases hs with
  | enter m => exact h.push w.next (.invoke m)
  | ret i r _ _ => exact h.push i _
  | refuse i _ _ => exact h.push i _
  | deliver i _ _ _ _ =>
    have hput : Latched (w.put w.st.deliver) := by
      refine h.put ?_ ?_ <;> unfold Sys.deliver <;> split <;> first | rfl | exact fun hf => hf
    exact hput.push i _
  | ask i op _ => exact h.push i _
  | answer i op a _ => exact h.push i _
  | launch i c op _ _ => exact h.push i _
  | began i c op a _ _ _ _ _ => exact h.push i _
  | cancel i c j _ _ _ => exact h.push i _
  | canceled i c j a _ _ _ => exact h.push i _
  | operate i m s r rest _ _ hop =>
    have hput : Latched (w.put s) := by
      cases hop <;> exact h
    exact hput.push i _
  | accept r hidle hd hr =>
    intro e he hne
    exact absurd hidle.fault (h e he hne).1
  | latch code => exact h.put (fun hf => by cases hf) rfl
  | _ => exact h.put (fun hf => hf) rfl

/-! ## Attempts -/

/-- **The attempts of a call**: one on the host route at most, then one on the local route
at most. -/
structure Tries (w : GWorld digest) : Prop where
  shape : ∀ id, begins w.log id = [] ∨ begins w.log id = [true] ∨ begins w.log id = [false] ∨
    begins w.log id = [false, true]
  fresh : ∀ id, id ∉ w.st.client.history → begins w.log id = []
  host : ∀ c h, w.st.client.active = some c → c.route = .host h →
    false ∉ begins w.log c.request.requestId

theorem begins_other (log : List (GEntry digest)) (i : ℕ) {x : Act Op Answer Exc Method Return}
    (s : Sys digest) (hx : ∀ op, x = .call op → op.begins = none) (id : String) :
    begins (⟨i, x, s⟩ :: log) id = begins log id := by
  unfold begins
  rw [List.filterMap_cons_none]
  cases x with
  | call op =>
    dsimp only
    rw [hx op rfl, ite_self]
  | _ => rfl

theorem begins_call (log : List (GEntry digest)) (i : ℕ) {op : Op} {s : Sys digest} {c : Call} {b : Bool}
    (hc : s.client.active = some c) (hb : op.begins = some b) (id : String) :
    begins (⟨i, .call op, s⟩ :: log) id =
      if c.request.requestId = id then b :: begins log id else begins log id := by
  unfold begins
  rw [List.filterMap_cons]
  dsimp only
  rw [hc, hb]
  by_cases h : c.request.requestId = id <;> simp [h]

theorem Tries.put (h : Tries w) {s : Sys digest}
    (hh : ∀ id ∈ w.st.client.history, id ∈ s.client.history)
    (hr : ∀ c' k, s.client.active = some c' → c'.route = .host k →
      ∃ c, w.st.client.active = some c ∧ c.route = .host k ∧
        c'.request.requestId = c.request.requestId) : Tries (w.put s) where
  shape := h.shape
  fresh id hid := h.fresh id fun hmem => hid (hh id hmem)
  host c' k hc' hk := by
    obtain ⟨c, hc, hroute, hid⟩ := hr c' k hc' hk
    rw [hid]
    exact h.host c k hc hroute

theorem Tries.change (h : Tries w) {f : Call → Call} (hf : ∀ c, w.st.client.active = some c →
    (∀ k, (f c).route = .host k → c.route = .host k) ∧
      (f c).request.requestId = c.request.requestId) :
    Tries (w.put (w.st.onClient (.change f))) := by
  refine h.put (fun _ hid => hid) fun c' k hc' hk => ?_
  obtain ⟨c, hc, rfl⟩ := Option.map_eq_some_iff.1 hc'
  exact ⟨c, hc, (hf c hc).1 k hk, (hf c hc).2⟩

theorem Tries.push (h : Tries w) (i : ℕ) {x : Act Op Answer Exc Method Return}
    (hx : ∀ op, x = .call op → op.begins = none) : Tries (w.push i x) := by
  have hb : ∀ id, begins (w.push i x).log id = begins w.log id := begins_other w.log i w.st hx
  exact ⟨fun id => by rw [hb]; exact h.shape id, fun id hid => by rw [hb]; exact h.fresh id hid,
    fun c k hc hk => by rw [hb]; exact h.host c k hc hk⟩

theorem launches_begins {c : Call} {op : Op} (h : Launches codec c op) :
    (∃ k, c.route = .host k ∧ op.begins = some true) ∨ ∃ l, c.route = .vm l ∧ op.begins = some false := by
  unfold Launches at h
  split at h
  · rename_i k hk
    obtain ⟨body, -, rfl⟩ := h
    exact .inl ⟨k, hk, rfl⟩
  · rename_i l hl
    subst h
    exact .inr ⟨l, hl, rfl⟩

theorem tries_step (hlives : Lives w) (hs : Step codec w w') (h : Tries w) : Tries w' := by
  have hsame : ∀ {s : Sys digest}, s.client.history = w.st.client.history →
      s.client.active = w.st.client.active → Tries (w.put s) := by
    intro s hh ha
    exact h.put (fun _ hid => hh ▸ hid) fun c' k hc' hk => ⟨c', ha ▸ hc', hk, rfl⟩
  cases hs with
  | enter m =>
    have := h.push w.next (x := .invoke m) (by intro op hx; cases hx)
    exact ⟨this.shape, this.fresh, this.host⟩
  | ret i r _ _ => exact h.push i (by intro op hx; cases hx)
  | refuse i _ _ => exact h.push i (by intro op hx; cases hx)
  | deliver i _ _ _ _ =>
    have hput : Tries (w.put w.st.deliver) := by
      unfold Sys.deliver
      split <;> exact hsame rfl rfl
    exact hput.push i (by intro op hx; cases hx)
  | ask i op hop =>
    refine h.push i ?_
    intro op' hx
    cases hx
    exact Op.quiet_begins hop
  | answer i op a _ => exact h.push i (by intro op hx; cases hx)
  | inside b => exact hsame rfl rfl
  | configuring b => exact hsame rfl rfl
  | flag d x =>
    have := h.change (f := fun c => { c with cancelRequested := c.cancelRequested || x })
      fun c _ => ⟨fun _ hk => hk, rfl⟩
    exact ⟨this.shape, this.fresh, this.host⟩
  | accept r hidle hd hr =>
    refine ⟨h.shape, fun id hid => h.fresh id fun hmem => hid (List.mem_cons_of_mem _ hmem), ?_⟩
    intro c k hc hk
    cases hc
    show false ∉ begins w.log r.requestId
    rw [h.fresh r.requestId hr]
    exact List.not_mem_nil
  | tick c now _ _ _ => exact h.change fun c _ => ⟨fun _ hk => hk, rfl⟩
  | latch code => exact hsame rfl rfl
  | route c hc _ =>
    refine h.change fun c' hc' => ⟨fun _ hk => hk, ?_⟩
    obtain rfl : c = c' := Option.some_inj.1 (hc.symm.trans hc')
    rfl
  | soil c _ => exact hsame rfl rfl
  | absolve c _ _ _ _ => exact hsame rfl rfl
  | launch i c op hadm hop =>
    have hid : c.request.requestId ∈ w.st.client.history := by
      rw [hlives.life.stored, activeId, hadm.active]
      exact List.mem_cons_self
    have hshape := h.shape c.request.requestId
    rcases launches_begins hop with ⟨k, hk, hb⟩ | ⟨l, hl, hb⟩
    · -- the first attempt
      obtain ⟨-, -, -, hnone, -⟩ := hadm.host k hk
      have hlog : ∀ id, begins (w.push i (.call op)).log id =
          if c.request.requestId = id then true :: begins w.log id else begins w.log id :=
        begins_call w.log i hadm.active hb
      refine ⟨fun id => ?_, fun id hne => ?_, fun c' k' hc' hk' => ?_⟩
      · rw [hlog id]
        split
        · rename_i heq
          subst heq
          rw [hnone]
          exact .inr (.inl rfl)
        · exact h.shape id
      · rw [hlog id, if_neg (by rintro rfl; exact hne hid)]
        exact h.fresh id hne
      · obtain rfl : c = c' := Option.some_inj.1 (hadm.active.symm.trans hc')
        rw [hlog, if_pos rfl, hnone]
        decide
    · -- the fallback
      obtain ⟨-, hnone⟩ := hadm.vm l hl
      have hlog : ∀ id, begins (w.push i (.call op)).log id =
          if c.request.requestId = id then false :: begins w.log id else begins w.log id :=
        begins_call w.log i hadm.active hb
      refine ⟨fun id => ?_, fun id hne => ?_, fun c' k' hc' hk' => ?_⟩
      · rw [hlog id]
        split
        · rename_i heq
          subst heq
          rcases hshape with h0 | h1 | h2 | h3
          · rw [h0]; exact .inr (.inr (.inl rfl))
          · rw [h1]; exact .inr (.inr (.inr rfl))
          · rw [h2] at hnone; exact absurd List.mem_cons_self hnone
          · rw [h3] at hnone; exact absurd List.mem_cons_self hnone
        · exact h.shape id
      · rw [hlog id, if_neg (by rintro rfl; exact hne hid)]
        exact h.fresh id hne
      · obtain rfl : c = c' := Option.some_inj.1 (hadm.active.symm.trans hc')
        rw [hl] at hk'
        cases hk'
  | began i c op a _ _ _ _ _ => exact h.push i (by intro op hx; cases hx)
  | adopt i c op a s rest _ _ _ _ _ _ _ _ _ => exact h.change fun c _ => ⟨fun _ hk => hk, rfl⟩
  | finishing c v _ =>
    have := h.change (f := fun c => { c with job := none }) fun c _ => ⟨fun _ hk => hk, rfl⟩
    exact ⟨this.shape, this.fresh, this.host⟩
  | cancel i c j _ _ _ => exact h.push i (by intro op hx; cases hx; rfl)
  | canceled i c j a _ _ _ => exact h.push i (by intro op hx; cases hx)
  | fallBack c hh l f _ =>
    refine h.change fun c _ => ⟨fun k hk => ?_, rfl⟩
    cases hk
  | store c t hst =>
    exact h.put (fun _ hid => hid) fun c' k hc' => by cases hc'
  | claim _ _ => exact hsame rfl rfl
  | rebind host localRoute f _ _ => exact hsame rfl rfl
  | time c now _ => exact hsame rfl rfl
  | operate i m s r rest _ _ hop =>
    have hput : Tries (w.put s) := by
      cases hop <;> first | exact h | exact hsame rfl rfl
    exact hput.push i (by intro op hx; cases hx)
  | disable i c s rest _ _ _ _ _ =>
    have := h.change (f := fun c => { c with cancelRequested := c.cancelRequested || false })
      fun c _ => ⟨fun _ hk => hk, rfl⟩
    exact ⟨this.shape, this.fresh, this.host⟩

end Gateway

end Arhugula
