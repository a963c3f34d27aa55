import Arhugula.Concurrent.Lock
import Arhugula.Spec.Control

/-!
# A request is handled at most once

The ids that were claimed are those of `_seen` (`Kept.seen`), so a handler that is run has the id of a claim of its own
call, and no other call can claim it. A call that holds the lock is the only one that claims or runs a handler: what the
others do meanwhile is to find the lock taken.
-/

namespace Arhugula

namespace Control

open Reentrant Concurrent Strings Codec

/-! ## What a log shows -/

/-- An act of a call. -/
abbrev Did := Act Op Answer Unit Call Reply

/-- The id that is claimed. -/
def claimOf : Did → Option Text
  | .call (.turn (.claimed identifier)) => some identifier
  | _ => none

/-- The id of the request that a handler is run with. -/
def ranOf : Did → Option Text
  | .call (.handler request) => some (textAt request "request_id")
  | _ => none

/-- The state that was sampled. -/
def sampleOf : Did → Option ControlState
  | .reply .state (.state s) => some s
  | _ => none

/-- The state is asked for. -/
def isAsked : Did → Bool
  | .call .state => true
  | _ => false

/-- How often a call asked for the state. -/
def asked (t : List Did) : ℕ := t.countP isAsked

/-- The entries of a log. -/
abbrev Log := List (Entry State Op Answer Unit Call Reply)

/-- The ids that were claimed, newest first. -/
def claims (log : Log) : List Text := log.filterMap fun e => claimOf e.act

/-- The ids of the requests that handlers were run with. -/
def ran (log : Log) : List Text := log.filterMap fun e => ranOf e.act

variable (d : Dispatcher)

/-- **How a call ends**, given what it did. It asked for the state twice if and only if it claimed an id. -/
structure Outcome (r : Except Unit Reply) (t : List Did) : Prop where
  unclaimed : asked t ≤ 1 → t.filterMap claimOf = [] ∧ t.filterMap ranOf = []
  claimed : 2 ≤ asked t → ∃ id, t.filterMap claimOf = [id]
  early : ∀ a, r = .ok a → a.code ∈ ["control.peer", "control.busy", "control.invalid", "control.state-unavailable",
    "control.replayed", "control.exhausted"] → asked t ≤ 1
  late : ∀ a, r = .ok a → a.code ∈ ["control.uncertain", "control.denied"] → 2 ≤ asked t
  stale : ∀ a, r = .ok a → a.code = "control.stale" → t.filterMap ranOf = []

/-- **What an act owes**, given what its call did. -/
def Fine : Did → List Did → Prop
  | .call (.turn (.claimed _)), t => t.filterMap claimOf = []
  | .call (.handler request), t => ∃ s, t.filterMap sampleOf = [s, s] ∧
      textAt request "session_id" = d.sessionId ∧ textAt request "context_epoch" = s.contextEpoch ∧
      t.filterMap claimOf = [textAt request "request_id"] ∧ t.filterMap ranOf = []
  | .ret r, t => Outcome r t
  | _, _ => True

/-- **What holds of every log.** -/
structure Kept (w : World State Op Answer Unit Call Reply) : Prop where
  seen : w.st.seen = claims w.log
  distinct : (claims w.log).Nodup
  bounded : (claims w.log).length ≤ 4096
  once : (ran w.log).Nodup
  handled : ∀ id ∈ ran w.log, id ∈ claims w.log
  fine : Throughout (fun e older => e.st.seen = claims (e :: older) ∧ Fine d e.act (acts e.frame older)) w.log

/-- Neither a claim nor a handler. -/
def Calm (x : Did) : Prop := claimOf x = none ∧ ranOf x = none

/-- The lock of the dispatcher. -/
def lock : Lock.Locked State Op Answer Unit Call Reply where
  held := State.locked
  calm := Calm
  Inv := Kept d
  calm_crash := ⟨rfl, rfl⟩

variable {d} {w w' : World State Op Answer Unit Call Reply} {i : ℕ} {x : Did} {t : List Did}

theorem claims_calm (hx : Calm x) : claims (w.push i x).log = claims w.log := by
  unfold claims
  rw [World.push_log]
  exact List.filterMap_cons_none hx.1

theorem ran_calm (hx : Calm x) : ran (w.push i x).log = ran w.log := by
  unfold ran
  rw [World.push_log]
  exact List.filterMap_cons_none hx.2

theorem Kept.push (h : Kept d w) (hx : Calm x) (hf : Fine d x (acts i w.log)) : Kept d (w.push i x) where
  seen := by rw [World.push_st, claims_calm hx, h.seen]
  distinct := by rw [claims_calm hx]; exact h.distinct
  bounded := by rw [claims_calm hx]; exact h.bounded
  once := by rw [ran_calm hx]; exact h.once
  handled := by rw [claims_calm hx, ran_calm hx]; exact h.handled
  fine := by
    refine ⟨⟨?_, hf⟩, h.fine⟩
    have hclaims := claims_calm (w := w) (i := i) hx
    rw [World.push_log] at hclaims
    rw [hclaims]
    exact h.seen

/-- A claim, right after the id was added. -/
theorem Kept.claim (h : Kept d w) {id : Text} (hnew : id ∉ w.st.seen) (hlen : w.st.seen.length < 4096)
    (hf : (acts i w.log).filterMap claimOf = []) :
    Kept d ((w.put (w.st.add id)).push i (.call (.turn (.claimed id)))) := by
  have hclaims : claims ((w.put (w.st.add id)).push i (.call (.turn (.claimed id)))).log = id :: claims w.log := rfl
  have hran : ran ((w.put (w.st.add id)).push i (.call (.turn (.claimed id)))).log = ran w.log := rfl
  have hadd : (w.st.add id).seen = id :: w.st.seen := if_neg hnew
  rw [h.seen] at hnew hlen hadd
  refine ⟨?_, ?_, ?_, ?_, ?_, ⟨hadd, hf⟩, h.fine⟩
  · rw [hclaims]
    exact hadd
  · rw [hclaims]
    exact List.nodup_cons.2 ⟨hnew, h.distinct⟩
  · rw [hclaims, List.length_cons]
    omega
  · rw [hran]
    exact h.once
  · rw [hran, hclaims]
    exact fun id hid => List.mem_cons_of_mem _ (h.handled id hid)

/-- A handler is run for an id that was claimed and has not been handled. -/
theorem Kept.handle (h : Kept d w) {request : List (Text × Py)} (hclaimed : textAt request "request_id" ∈ claims w.log)
    (hnew : textAt request "request_id" ∉ ran w.log) (hf : Fine d (.call (.handler request)) (acts i w.log)) :
    Kept d (w.push i (.call (.handler request))) := by
  have hclaims : claims (w.push i (.call (.handler request))).log = claims w.log := rfl
  have hran : ran (w.push i (.call (.handler request))).log = textAt request "request_id" :: ran w.log := rfl
  refine ⟨h.seen, h.distinct, h.bounded, ?_, ?_, ⟨h.seen, hf⟩, h.fine⟩
  · rw [hran]
    exact List.nodup_cons.2 ⟨hnew, h.once⟩
  · rw [hran, hclaims]
    intro id hid
    rcases List.mem_cons.1 hid with rfl | hid
    · exact hclaimed
    · exact h.handled id hid

/-! ## While the lock is held -/

/-- What a call that holds the lock knows: what it did, the state, and what was handled before. -/
structure Inside (d : Dispatcher) (i : ℕ) (t : List Did) (s : State) (before : List Text)
    (w : World State Op Answer Unit Call Reply) : Prop where
  kept : Kept d w
  acts : acts i w.log = t
  state : w.st = s
  ran : ran w.log = before

variable {s : State} {before : List Text} {Q : Bool → Except Unit Answer → World State Op Answer Unit Call Reply → Prop}

theorem ran_meanwhile (h : Lock.Meanwhile (lock d) i true w w') : ran w'.log = ran w.log := by
  obtain ⟨-, new, hl, hn⟩ := h
  rw [hl]
  unfold ran
  rw [List.filterMap_append, List.filterMap_eq_nil_iff.2 fun e he => ((hn e he).2 rfl).2, List.nil_append]

/-- **Another call leaves what the call that holds the lock knows.** -/
theorem Inside.meanwhile (h : Inside d i t s before w) (hw : Lock.Meanwhile (lock d) i true w w') (hk : Kept d w') :
    Inside d i t s before w' :=
  ⟨hk, hw.acts.trans h.acts, (hw.1 rfl).trans h.state, (ran_meanwhile hw).trans h.ran⟩

theorem Inside.push (h : Inside d i t s before w) (hx : Calm x) (hf : Fine d x t) :
    Inside d i (x :: t) s before (w.push i x) := by
  refine ⟨h.kept.push hx (by rw [h.acts]; exact hf), ?_, h.state, ?_⟩
  · rw [acts_push, h.acts]
  · rw [ran_calm hx, h.ran]

/-- A callback that neither claims nor handles. -/
theorem Inside.ask (h : Inside d i t s before w) {op : Op} (hop : Calm (.call op)) (hf : Fine d (.call op) t)
    (hQ : ∀ w' a, Inside d i (.reply op a :: .call op :: t) s before w' → Q true (.ok a) w') :
    Lock.Runs (lock d) i true (Prog.ask op) Q w := by
  rw [Lock.runs_ask]
  have hcall := h.push hop hf
  refine ⟨fun hb => (by cases hb), hcall.kept, fun w' hw hk a => ?_⟩
  have hreply : Calm (.reply op a) := ⟨rfl, rfl⟩
  have hdone := (hcall.meanwhile hw hk).push hreply trivial
  exact ⟨fun hb => (by cases hb), hdone.kept, hQ _ a hdone⟩

/-- The other threads may go on. -/
theorem Inside.turn (h : Inside d i t s before w) {p : Point} (hp : Calm (.call (.turn p)))
    (hf : Fine d (.call (.turn p)) t) {Q : Bool → Except Unit Unit → World State Op Answer Unit Call Reply → Prop}
    (hQ : ∀ w' a, Inside d i (.reply (.turn p) a :: .call (.turn p) :: t) s before w' → Q true (.ok ()) w') :
    Lock.Runs (lock d) i true (turn p) Q w := by
  unfold Control.turn
  rw [Lock.runs_bind]
  exact h.ask hp hf hQ

/-- How a body ends that holds the lock. -/
def Done (d : Dispatcher) (i : ℕ) (b : Bool) (r : Except Unit Reply) (w : World State Op Answer Unit Call Reply) : Prop :=
  b = true ∧ Kept d w ∧ Outcome r (acts i w.log)

theorem Inside.done (h : Inside d i t s before w) {r : Except Unit Reply} (ho : Outcome r t) : Done d i true r w :=
  ⟨rfl, h.kept, by rw [h.acts]; exact ho⟩

/-- A call that has not asked for the state twice has not claimed. -/
theorem outcome_early {r : Except Unit Reply} (ht : asked t ≤ 1) (hc : t.filterMap claimOf = [])
    (hr : t.filterMap ranOf = []) (hlate : ∀ a, r = .ok a → a.code ∉ ["control.uncertain", "control.denied"]) :
    Outcome r t where
  unclaimed _ := ⟨hc, hr⟩
  claimed h2 := by omega
  early _ _ _ := ht
  late a ha hcode := absurd hcode (hlate a ha)
  stale _ _ _ := hr

/-- A call that has asked twice has claimed. -/
theorem outcome_late {r : Except Unit Reply} {id : Text} (ht : 2 ≤ asked t) (hc : t.filterMap claimOf = [id])
    (hearly : ∀ a, r = .ok a → a.code ∉ ["control.peer", "control.busy", "control.invalid", "control.state-unavailable",
      "control.replayed", "control.exhausted"])
    (hstale : ∀ a, r = .ok a → a.code = "control.stale" → t.filterMap ranOf = []) : Outcome r t where
  unclaimed h1 := by omega
  claimed _ := ⟨id, hc⟩
  early a ha hcode := absurd hcode (hearly a ha)
  late _ _ _ := ht
  stale := hstale

/-! ## The bodies -/

/-- **A handler is run** after its id was claimed and its state was sampled again. -/
theorem actuate_done {request : List (Text × Py)} (h : Inside d i t s before w)
    (hseen : textAt request "request_id" ∈ s.seen) (hnew : textAt request "request_id" ∉ before)
    (hf : Fine d (.call (.handler request)) t) (ht : 2 ≤ asked t) :
    Lock.Runs (lock d) i true (actuate request) (Done d i) w := by
  have hclaimed : textAt request "request_id" ∈ claims w.log := by rwa [← h.kept.seen, h.state]
  have hkept : Kept d (w.push i (.call (.handler request))) := by
    refine h.kept.handle hclaimed (by rwa [h.ran]) ?_
    rw [h.acts]
    exact hf
  have hcall : Inside d i (.call (.handler request) :: t) s (textAt request "request_id" :: before)
      (w.push i (.call (.handler request))) := by
    refine ⟨hkept, ?_, h.state, ?_⟩
    · rw [acts_push, h.acts]
    · rw [← h.ran]
      rfl
  obtain ⟨s₀, -, -, -, hc, -⟩ := hf
  unfold actuate
  rw [Lock.runs_bind, Lock.runs_ask]
  refine ⟨fun hb => (by cases hb), hkept, fun w' hw hk a => ?_⟩
  have hdone := (hcall.meanwhile hw hk).push (x := .reply (.handler request) a) ⟨rfl, rfl⟩ trivial
  refine ⟨fun hb => (by cases hb), hdone.kept, ?_⟩
  have hout : ∀ r : Except Unit Reply, (∀ b, r = .ok b → b.code ∈ ["control.ok", "control.denied", "control.uncertain"]) →
      Outcome r (.reply (.handler request) a :: .call (.handler request) :: t) := by
    intro r hr
    refine outcome_late ht hc (fun b hb hcode => ?_) fun b hb hcode => ?_
    · have hmem := hr b hb
      simp only [List.mem_cons, List.not_mem_nil, or_false] at hmem hcode
      rcases hmem with heq | heq | heq <;> simp [heq] at hcode
    · have hmem := hr b hb
      simp [hcode] at hmem
  cases a with
  | interrupted => exact hdone.done (hout _ fun b hb => by cases hb)
  | bool b =>
    cases b with
    | true => exact hdone.done (hout _ fun b hb => by cases hb; simp [reply])
    | false => exact hdone.done (hout _ fun b hb => by cases hb; simp [reply])
  | state _ | object | raised => exact hdone.done (hout _ fun b hb => by cases hb; simp [reply])

/-- What a call did that has sampled the state once. -/
structure Sampled (state : ControlState) (t : List Did) : Prop where
  asked : asked t = 1
  samples : t.filterMap sampleOf = [state]
  claims : t.filterMap claimOf = []
  ran : t.filterMap ranOf = []

/-- **An id is claimed**, the state sampled again, and the handler run if it is the same. -/
theorem claim_done {request : List (Text × Py)} {state : ControlState} (h : Inside d i t s before w)
    (hlocked : s.locked = true) (ht : Sampled state t) (hnew : textAt request "request_id" ∉ s.seen)
    (hlen : s.seen.length < 4096) (hsession : textAt request "session_id" = d.sessionId)
    (hepoch : textAt request "context_epoch" = state.contextEpoch) :
    Lock.Runs (lock d) i true (claim request state) (Done d i) w := by
  have hbefore : textAt request "request_id" ∉ before := by
    intro hmem
    have hran := h.kept.handled _ (h.ran.symm ▸ hmem)
    rw [← h.kept.seen, h.state] at hran
    exact hnew hran
  unfold claim
  rw [Lock.runs_bind]
  refine h.turn (p := .unseen) ⟨rfl, rfl⟩ trivial fun w₁ a₁ h₁ => ?_
  dsimp only
  rw [Lock.runs_bind, Lock.runs_write]
  have hheld : (lock d).held (w₁.st.add (textAt request "request_id")) = true := by
    rw [h₁.state]
    exact hlocked
  rw [hheld]
  dsimp only
  unfold turn
  rw [Lock.runs_bind, Lock.runs_bind, Lock.runs_ask]
  -- the id is added, and nothing else happens before the call says so
  have hclaim : Kept d ((w₁.put (w₁.st.add (textAt request "request_id"))).push i
      (.call (.turn (.claimed (textAt request "request_id"))))) := by
    refine h₁.kept.claim (by rwa [h₁.state]) (by rwa [h₁.state]) ?_
    rw [h₁.acts]
    exact ht.claims
  refine ⟨fun hb => (by cases hb), hclaim, fun w₂ hw₂ hk₂ a₂ => ?_⟩
  have hcall : Inside d i (.call (.turn (.claimed (textAt request "request_id"))) :: .reply (.turn .unseen) a₁ ::
      .call (.turn .unseen) :: t) (s.add (textAt request "request_id")) before
      ((w₁.put (w₁.st.add (textAt request "request_id"))).push i
        (.call (.turn (.claimed (textAt request "request_id"))))) := by
    refine ⟨hclaim, ?_, ?_, ?_⟩
    · rw [acts_push, World.put_log, h₁.acts]
    · rw [World.push_st, World.put_st, h₁.state]
    · rw [← h₁.ran]
      rfl
  have h₂ := (hcall.meanwhile hw₂ hk₂).push (x := .reply (.turn (.claimed (textAt request "request_id"))) a₂) ⟨rfl, rfl⟩
    trivial
  refine ⟨fun hb => (by cases hb), h₂.kept, ?_⟩
  rw [Lock.runs_pure]
  dsimp only
  rw [Lock.runs_bind]
  refine h₂.ask ⟨rfl, rfl⟩ trivial fun w₃ a₃ h₃ => ?_
  have hasked : asked (.reply .state a₃ :: .call .state :: .reply (.turn (.claimed (textAt request "request_id"))) a₂ ::
      .call (.turn (.claimed (textAt request "request_id"))) :: .reply (.turn .unseen) a₁ :: .call (.turn .unseen) ::
      t) = 2 := by
    simp only [asked, List.countP_cons, isAsked]
    simpa [asked] using ht.asked
  have hclaims : (.reply .state a₃ :: .call .state :: .reply (.turn (.claimed (textAt request "request_id"))) a₂ ::
      .call (.turn (.claimed (textAt request "request_id"))) :: .reply (.turn .unseen) a₁ :: .call (.turn .unseen) ::
      t).filterMap claimOf = [textAt request "request_id"] := congrArg (textAt request "request_id" :: ·) ht.claims
  have hran : (.reply .state a₃ :: .call .state :: .reply (.turn (.claimed (textAt request "request_id"))) a₂ ::
      .call (.turn (.claimed (textAt request "request_id"))) :: .reply (.turn .unseen) a₁ :: .call (.turn .unseen) ::
      t).filterMap ranOf = [] := ht.ran
  have hout : ∀ r : Except Unit Reply, (∀ b, r = .ok b → b.code ∈ ["control.stale", "control.uncertain"]) →
      Done d i true r w₃ := by
    intro r hr
    refine h₃.done (outcome_late hasked.ge hclaims (fun b hb hcode => ?_) fun b hb hcode => hran)
    have hmem := hr b hb
    simp only [List.mem_cons, List.not_mem_nil, or_false] at hmem hcode
    rcases hmem with heq | heq <;> simp [heq] at hcode
  cases a₃ with
  | interrupted => exact hout _ fun b hb => by cases hb
  | raised => exact hout _ fun b hb => by cases hb; simp [reply]
  | bool _ | object => exact hout _ fun b hb => by cases hb; simp [reply]
  | state again =>
    dsimp only
    split
    · rename_i hsame
      subst hsame
      refine actuate_done h₃ ?_ hbefore ?_ hasked.ge
      · unfold State.add
        dsimp only
        split
        · assumption
        · exact List.mem_cons_self
      · exact ⟨again, congrArg (again :: ·) ht.samples, hsession, hepoch, hclaims, hran⟩
    · exact hout _ fun b hb => by cases hb; simp [reply]

/-- A call that has not claimed, and returns. -/
theorem Inside.refuse (h : Inside d i t s before w) (ha : asked t ≤ 1) (hc : t.filterMap claimOf = [])
    (hr : t.filterMap ranOf = []) {a : Reply} (hcode : a.code ∉ ["control.uncertain", "control.denied"]) :
    Done d i true (.ok a) w := by
  refine h.done (outcome_early ha hc hr fun b hb => ?_)
  cases hb
  exact hcode

/-- **A request is checked** before its id is claimed. -/
theorem check_done {request : List (Text × Py)} {state : ControlState} (h : Inside d i t s before w)
    (hlocked : s.locked = true) (ht : Sampled state t) :
    Lock.Runs (lock d) i true (d.check request state) (Done d i) w := by
  have hrefuse : ∀ {a : Reply}, a.code ∉ ["control.uncertain", "control.denied"] → Done d i true (.ok a) w :=
    fun hcode => h.refuse ht.asked.le ht.claims ht.ran hcode
  unfold Dispatcher.check
  split
  · exact hrefuse (by simp)
  split
  · exact hrefuse (by simp [reply])
  rename_i hnames
  rw [Lock.runs_bind, Lock.runs_read]
  dsimp only
  rw [h.state]
  split
  · exact hrefuse (by simp [reply])
  rename_i hnew
  split
  · exact hrefuse (by simp [reply])
  rename_i hlen
  have hboth : textAt request "session_id" = d.sessionId ∧ textAt request "context_epoch" = state.contextEpoch := by
    simpa using hnames
  exact claim_done h hlocked ht hnew (by omega) hboth.1 hboth.2

/-- **What is done while the lock is held.** -/
theorem serve_done (payload : Option (List UInt8)) (h : Inside d i t s before w) (hlocked : s.locked = true)
    (ha : asked t = 0) (hs : t.filterMap sampleOf = []) (hc : t.filterMap claimOf = []) (hr : t.filterMap ranOf = []) :
    Lock.Runs (lock d) i true (d.serve payload) (Done d i) w := by
  unfold Dispatcher.serve
  rw [Lock.runs_bind]
  refine h.turn (p := .locked) ⟨rfl, rfl⟩ trivial fun w₁ a₁ h₁ => ?_
  dsimp only
  have ha₁ : asked (.reply (.turn .locked) a₁ :: .call (.turn .locked) :: t) = 0 := by
    simp only [asked, List.countP_cons, isAsked]
    simpa [asked] using ha
  split
  · exact h₁.refuse (by omega) hc hr (by simp [reply])
  rw [Lock.runs_bind]
  refine h₁.ask ⟨rfl, rfl⟩ trivial fun w₂ a₂ h₂ => ?_
  have ha₂ : asked (.reply .state a₂ :: .call .state :: .reply (.turn .locked) a₁ :: .call (.turn .locked) :: t) = 1 := by
    unfold asked at ha₁ ⊢
    rw [List.countP_cons, List.countP_cons, ha₁]
    rfl
  have hrefuse : ∀ {a : Reply}, a.code ∉ ["control.uncertain", "control.denied"] → Done d i true (.ok a) w₂ :=
    fun hcode => h₂.refuse ha₂.le hc hr hcode
  cases a₂ with
  | interrupted => exact h₂.done (outcome_early ha₂.le hc hr fun b hb => by cases hb)
  | state state =>
    refine check_done h₂ hlocked ⟨ha₂, congrArg (state :: ·) hs, hc, hr⟩
  | bool _ | object | raised => exact hrefuse (by simp [reply])

theorem Kept.put (h : Kept d w) {s : State} (hs : s.seen = w.st.seen) : Kept d (w.put s) :=
  { h with seen := hs.trans h.seen }

/-- A call that does not hold the lock, and returns. -/
theorem Kept.ends (h : Kept d w) (ht : acts i w.log = t) (ha : asked t ≤ 1) (hc : t.filterMap claimOf = [])
    (hr : t.filterMap ranOf = []) {a : Reply} (hcode : a.code ∉ ["control.uncertain", "control.denied"]) :
    Lock.Ends (lock d) i false (.ok a) w := by
  refine ⟨rfl, ⟨rfl, rfl⟩, h.push (x := .ret (.ok a)) ⟨rfl, rfl⟩ ?_⟩
  rw [ht]
  refine outcome_early ha hc hr fun b hb => ?_
  cases hb
  exact hcode

/-- **Every call runs under the lock.** -/
theorem bodies : Lock.Bodies (lock d) d.handle where
  invoke m := ⟨rfl, rfl⟩
  crash w i h := Kept.push h ⟨rfl, rfl⟩ trivial
  method m w h hfresh := by
    have henter : Kept d (w.enter m) :=
      { Kept.push (i := w.next) h (x := .invoke m) ⟨rfl, rfl⟩ trivial with }
    refine ⟨henter, ?_⟩
    have hacts : acts w.next (w.enter m).log = [.invoke m] := by
      rw [acts_enter, acts_fresh hfresh]
    unfold Dispatcher.handle
    split
    · exact henter.ends hacts (by simp [asked, isAsked]) rfl rfl (by simp [reply])
    unfold turn
    rw [Lock.runs_bind, Lock.runs_bind, Lock.runs_ask]
    have hcall := henter.push (i := w.next) (x := .call (.turn .arrived)) ⟨rfl, rfl⟩ trivial
    refine ⟨fun _ => ⟨rfl, rfl⟩, hcall, fun w₁ hw₁ hk₁ a₁ => ?_⟩
    have h₁ : Kept d (w₁.push w.next (.reply (.turn .arrived) a₁)) := Kept.push hk₁ ⟨rfl, rfl⟩ trivial
    have hacts₁ : acts w.next (w₁.push w.next (.reply (.turn .arrived) a₁)).log =
        [.reply (.turn .arrived) a₁, .call (.turn .arrived), .invoke m] := by
      rw [acts_push, hw₁.acts, acts_push, hacts]
    refine ⟨fun _ => ⟨rfl, rfl⟩, h₁, ?_⟩
    rw [Lock.runs_pure]
    dsimp only
    rw [Lock.runs_bind, Lock.runs_read]
    dsimp only
    by_cases hlocked : (w₁.push w.next (.reply (.turn .arrived) a₁)).st.locked = true
    · rw [if_pos hlocked]
      exact h₁.ends hacts₁ (by simp [asked, isAsked]) rfl rfl (by simp [reply])
    · rw [if_neg hlocked, Lock.runs_bind, Lock.runs_take]
      have hfree : (w₁.push w.next (.reply (.turn .arrived) a₁)).st.locked = false := by simpa using hlocked
      refine ⟨hfree, rfl, ?_⟩
      dsimp only
      rw [Lock.runs_lastly]
      have hinside : Inside d w.next [.reply (.turn .arrived) a₁, .call (.turn .arrived), .invoke m]
          { w₁.st with locked := true } (ran w₁.log) ((w₁.push w.next (.reply (.turn .arrived) a₁)).put
            { (w₁.push w.next (.reply (.turn .arrived) a₁)).st with locked := true }) :=
        ⟨h₁.put rfl, hacts₁, rfl, ran_calm ⟨rfl, rfl⟩⟩
      have hserve := serve_done m.payload hinside rfl rfl rfl rfl rfl
      refine hserve.mono fun b r w₂ hdone => ?_
      obtain ⟨rfl, hkept, hout⟩ := hdone
      rw [Lock.runs_write]
      exact ⟨rfl, ⟨rfl, rfl⟩, Kept.push (hkept.put rfl) (x := .ret r) ⟨rfl, rfl⟩ hout⟩

theorem kept_start : Kept d (Machine.start State.fresh : Config State Op Answer Unit Call Reply).w :=
  ⟨rfl, List.nodup_nil, Nat.zero_le _, List.nodup_nil, fun id hid => (by cases hid), trivial⟩

/-- **A handler is run at most once for an id**, and only for a request of the session and of the epoch of the state that
was sampled twice. What was claimed stays claimed, no more than 4096 ids are, and a call that is refused before it has
claimed leaves the ids as they were. -/
theorem handled_once {c : Config State Op Answer Unit Call Reply} (hc : Reachable d.handle State.fresh c) :
    c.w.st.seen = claims c.w.log ∧ c.w.st.seen.Nodup ∧ c.w.st.seen.length ≤ 4096 ∧ (ran c.w.log).Nodup ∧
      ∀ newer e older, c.w.log = newer ++ e :: older →
        e.st.seen = claims (e :: older) ∧ Fine d e.act (acts e.frame older) := by
  have hguarded := bodies.sound kept_start hc
  have hkept : Kept d c.w := hguarded.inv
  refine ⟨hkept.seen, ?_, ?_, hkept.once, fun newer e older hlog => ?_⟩
  · rw [hkept.seen]
    exact hkept.distinct
  · rw [hkept.seen]
    exact hkept.bounded
  · have hfine := hkept.fine
    rw [hlog] at hfine
    exact hfine.at

namespace Example

/-- A request to activate. -/
def text : Text :=
  ("\x7b\"version\":1,\"op\":\"activate\",\"request_id\":\"r1\",\"session_id\":\"s1\",\"context_epoch\":\"e1\"" ++
    "\x7d").toList

/-- Its bytes. -/
def payload : List UInt8 := text.map fun c => c.toNat.toUInt8

/-- What is parsed of it. -/
def document : Doc :=
  .obj [("version".toList, .int 1), ("op".toList, .str "activate".toList), ("request_id".toList, .str "r1".toList),
    ("session_id".toList, .str "s1".toList), ("context_epoch".toList, .str "e1".toList)]

/-- A dispatcher. -/
def dispatcher : Dispatcher where
  sessionId := "s1".toList
  uid := 1000
  pid := 7
  parse bytes := if bytes = payload then some document else none
  valid := by decide

/-- An idle session. -/
def state : ControlState := ⟨"e1".toList, .idle, false, by decide⟩

/-- The call. -/
def call : Call := ⟨some payload, some 1000, 7⟩

/-- The handler is run, and the request comes again while it runs. -/
def inputs : List (Concurrent.Input Answer Call) :=
  [.begin call, .reply 0 .object, .reply 0 .object, .reply 0 (.state state), .reply 0 .object, .reply 0 .object,
    .reply 0 (.state state), .begin call, .reply 1 .object, .reply 0 (.bool true)]

/-- Both calls have returned, and one handler was run. -/
def test (c : Config State Op Answer Unit Call Reply) : Bool :=
  c.stack.isEmpty && ran c.w.log = ["r1".toList] && c.w.st = ⟨false, ["r1".toList]⟩

theorem shows : ∃ c, Reachable dispatcher.handle State.fresh c ∧ test c = true :=
  Reachable.of_run dispatcher.handle State.fresh inputs test (by decide +kernel)

end Example

/-- A handler is run once for a request that comes twice. -/
theorem handled_once_twice : ∃ c, Reachable Example.dispatcher.handle State.fresh c ∧ ran c.w.log = ["r1".toList] ∧
    (c.w.st.seen = claims c.w.log ∧ c.w.st.seen.Nodup ∧ c.w.st.seen.length ≤ 4096 ∧ (ran c.w.log).Nodup ∧
      ∀ newer e older, c.w.log = newer ++ e :: older →
        e.st.seen = claims (e :: older) ∧ Fine Example.dispatcher e.act (acts e.frame older)) := by
  obtain ⟨c, hc, htest⟩ := Example.shows
  unfold Example.test at htest
  simp only [Bool.and_eq_true, decide_eq_true_eq] at htest
  exact ⟨c, hc, htest.1.2, handled_once hc⟩

end Control

end Arhugula
