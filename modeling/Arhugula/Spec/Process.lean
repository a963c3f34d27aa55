import Mathlib.Data.List.Basic

/-!
# Owned processes (`runtime/voice/process.py`)

An `OwnedProcess` runs one child under a thread of its own, which reaps it. `Worker` is what its users rely on: it is
started once at most, a start after a cancel is refused, and a result that is not `uncertain` says that the child was
reaped. `OwnedProcess.worker` is the code, and keeps that contract.

Each method is one step, for it holds a lock; `cancel` is two, since it waits for the thread without the lock. All
threads are of the process that made the object, so `_check_owner` passes.
-/

namespace Arhugula

namespace Process

abbrev Bytes := List UInt8

/-- The status of a result. -/
inductive Status where
  | success | failed | canceled | uncertain
  deriving DecidableEq

/-- `ProcessResult`. The output may be no bytes. -/
structure ProcessResult where
  status : Status
  stdout : Option Bytes
  code : String
  deriving DecidableEq

/-- `status in {"success", "failed", "canceled"}`. -/
def ProcessResult.clean (r : ProcessResult) : Bool := r.status ≠ .uncertain

/-- What a worker gives: a `ProcessResult`, or another object. -/
inductive Raw where
  | result (r : ProcessResult)
  | object
  deriving DecidableEq

/-- It is a `ProcessResult`, and clean. -/
def Raw.clean : Raw → Bool
  | result r => r.clean
  | object => false

/-- What is raised: an `Exception`, or what is none. -/
inductive Raise where
  | exception | interrupt
  deriving DecidableEq

/-! ## The contract -/

/-- **A worker.** Its methods are steps of its state, given what the system does (`System`); `cancel` may have to
wait, and goes on with `await`. What happens by itself is `event`. -/
structure Worker where
  State : Type
  System : Type
  fresh : State
  start : System → Bytes → State → State × Except Raise Unit
  poll : State → Except Raise (Option Raw)
  cancel : State → State × Option (Except Raise Raw)
  await : System → State → State × Except Raise Raw
  event : System → State → State
  running : State → Bool
  /-- It was started, or canceled. -/
  spent : State → Prop
  /-- It has no result: it was not canceled, and is not under way. -/
  quiet : State → Prop
  -- single use, and none after a cancel
  start_spent : ∀ o b s, spent s → start o b s = (s, .error .exception)
  spent_start : ∀ o b s, (start o b s).2 = .ok () → spent (start o b s).1
  spent_cancel : ∀ s, spent (cancel s).1
  spent_await : ∀ o s, spent s → spent (await o s).1
  spent_event : ∀ o s, spent s → spent (event o s)
  -- only a start runs it
  idle_fresh : running fresh = false
  idle_cancel : ∀ s, running s = false → running (cancel s).1 = false
  idle_await : ∀ o s, running s = false → running (await o s).1 = false
  idle_event : ∀ o s, running s = false → running (event o s) = false
  -- a clean result says that it was reaped
  poll_reaped : ∀ s r, poll s = .ok (some r) → r.clean = true → running s = false ∧ spent s
  cancel_reaped : ∀ s r, (cancel s).2 = some (.ok r) → r.clean = true → running (cancel s).1 = false
  await_reaped : ∀ o s r, (await o s).2 = .ok r → r.clean = true → running (await o s).1 = false
  -- `poll` raises nothing, and gives nothing before there is something
  poll_ok : ∀ s, ∃ r, poll s = .ok r
  quiet_fresh : quiet fresh
  quiet_start : ∀ o b s, quiet s → (start o b s).2 = .error .exception → quiet (start o b s).1
  quiet_event : ∀ o s, quiet s → quiet (event o s)
  quiet_poll : ∀ s, quiet s → poll s = .ok none

/-! ## The code -/

/-- The thread of a process: there is none, it was not started, it supervises the child, or it has ended. -/
inductive Thread where
  | absent | created | alive | ended
  deriving DecidableEq

/-- **`OwnedProcess`.** `running` is the child. A clean result is recorded only where it does not run, and it runs only
where it was started. -/
structure OwnedProcess where
  started : Bool
  canceled : Bool
  thread : Thread
  result : Option ProcessResult
  running : Bool
  proven : ∀ r, result = some r → r.clean = true → running = false
  launched : running = true → started = true

/-- What the system does in a method: what `Popen`, the start of the thread, and `_cleanup` where it is not started,
come to; and what the child and its thread do. -/
inductive System where
  | spawned
  | osError
  | raised (r : Raise) (running : Bool)
  | unsupervised (cleanup : Except Raise Bool)
  | exits
  | ends (status : Status) (stdout : Bytes) (code : String) (cleanup : Bool)
  | joined (interrupt : Bool)

/-- The wait for the thread is interrupted. -/
def System.interrupts : System → Bool
  | joined interrupt => interrupt
  | _ => false

namespace OwnedProcess

/-- A new one. -/
def new : OwnedProcess where
  started := false
  canceled := false
  thread := .absent
  result := none
  running := false
  proven := fun _ h => by cases h
  launched := fun h => by cases h

/-- `process.start-failed`. -/
def startFailed : ProcessResult := ⟨.failed, some [], "process.start-failed"⟩

/-- `process.canceled`. -/
def canceledResult : ProcessResult := ⟨.canceled, some [], "process.canceled"⟩

/-- `process.cleanup-unproven`. -/
def unproven : ProcessResult := ⟨.uncertain, some [], "process.cleanup-unproven"⟩

theorem proven_none (running : Bool) (r : ProcessResult) (h : none = some r) (_ : r.clean = true) :
    running = false := by
  cases h

theorem proven_unproven (running : Bool) (r : ProcessResult) (h : some unproven = some r) (hr : r.clean = true) :
    running = false := by
  cases h
  cases hr

/-- `_started = True`, and how the start went. -/
def launch (p : OwnedProcess) (thread : Thread) (result : Option ProcessResult) (running : Bool)
    (proven : ∀ r, result = some r → r.clean = true → running = false) : OwnedProcess :=
  { p with
    started := true, thread := thread, result := result, running := running, proven := proven, launched := fun _ => rfl }

/-- `start`. -/
def start (o : System) (input : Bytes) (p : OwnedProcess) : OwnedProcess × Except Raise Unit :=
  if 480044 < input.length then (p, .error .exception)
  else if p.started ∨ p.result.isSome then (p, .error .exception)
  else match o with
    | .osError => (p.launch .absent (some startFailed) false (fun _ _ _ => rfl), .ok ())
    | .raised r running => (p.launch .absent none running (proven_none _), .error r)
    | .unsupervised (.error r) => (p.launch .created none true (proven_none _), .error r)
    | .unsupervised (.ok true) => (p.launch .created (some startFailed) false (fun _ _ _ => rfl), .ok ())
    | .unsupervised (.ok false) => (p.launch .created (some unproven) true (proven_unproven _), .ok ())
    | _ => (p.launch .alive none true (proven_none _), .ok ())

/-- `poll`. -/
def poll (p : OwnedProcess) : Except Raise (Option Raw) := .ok (p.result.map .result)

theorem idle_unstarted {p : OwnedProcess} (h : p.started = false) : p.running = false := by
  cases hrun : p.running with
  | false => rfl
  | true =>
    rw [p.launched hrun] at h
    cases h

/-- `cancel`, up to the wait for the thread. There may be none, or one that was not started, to wait for. -/
def cancel (p : OwnedProcess) : OwnedProcess × Option (Except Raise Raw) :=
  match p.result with
  | some r => (p, some (.ok (.result r)))
  | none =>
    if h : p.started = false then
      ({ p with result := some canceledResult, proven := fun _ _ _ => idle_unstarted h },
        some (.ok (.result canceledResult)))
    else if p.thread = .alive ∨ p.thread = .ended then ({ p with canceled := true }, none)
    else ({ p with canceled := true }, some (.error .exception))

/-- `cancel`, after the wait. -/
def await (o : System) (p : OwnedProcess) : OwnedProcess × Except Raise Raw :=
  if o.interrupts then (p, .error .interrupt)
  else match p.result with
    | some r => (p, .ok (.result r))
    | none => ({ p with result := some unproven, proven := proven_unproven _ }, .ok (.result unproven))

/-- What `_run` records at its end. -/
def ending (status : Status) (stdout : Bytes) (code : String) (cleanup : Bool) : ProcessResult :=
  if cleanup then ⟨status, some (if status = .success then stdout else []), code⟩
  else unproven

theorem ending_clean {status : Status} {stdout : Bytes} {code : String} {cleanup : Bool}
    (h : (ending status stdout code cleanup).clean = true) : cleanup = true := by
  cases cleanup with
  | true => rfl
  | false => cases h

theorem proven_ending {p : OwnedProcess} {status : Status} {stdout : Bytes} {code : String} {cleanup : Bool}
    (r : ProcessResult) (h : p.result.or (some (ending status stdout code cleanup)) = some r) (hr : r.clean = true) :
    (p.running && !cleanup) = false := by
  cases hres : p.result with
  | some r' =>
    rw [hres] at h
    cases h
    rw [p.proven r hres hr, Bool.false_and]
  | none =>
    rw [hres] at h
    cases h
    rw [ending_clean hr, Bool.not_true, Bool.and_false]

/-- The child exits, or its thread ends: `_run`. -/
def event (o : System) (p : OwnedProcess) : OwnedProcess :=
  if p.thread = .alive then
    match o with
    | .exits => { p with running := false, proven := fun _ _ _ => rfl, launched := fun h => by cases h }
    | .ends status stdout code cleanup =>
      { p with
        thread := .ended
        running := p.running && !cleanup
        result := p.result.or (some (ending status stdout code cleanup))
        proven := proven_ending
        launched := fun h => p.launched (Bool.and_eq_true_iff.1 h).1 }
    | _ => p
  else p

/-- It was started, or has a result. -/
def Spent (p : OwnedProcess) : Prop := p.started = true ∨ p.result.isSome = true

/-- It has no result, and no thread that could give it one. -/
def Quiet (p : OwnedProcess) : Prop := p.result = none ∧ p.thread ≠ .alive

theorem start_spent (o : System) (b : Bytes) (p : OwnedProcess) (h : p.Spent) :
    start o b p = (p, .error .exception) := by
  unfold start
  split
  · rfl
  · exact if_pos h

variable {o : System} {b : Bytes} {p : OwnedProcess}

/-- **The ends of a start**: it is refused, or it comes to what the system does. -/
theorem start_cases : start o b p = (p, .error .exception) ∨
    (start o b p).1.started = true ∧
      ((start o b p).2 = .error .exception → (start o b p).1.result = none ∧ (start o b p).1.thread ≠ .alive) := by
  unfold start
  by_cases hlen : 480044 < b.length
  · rw [if_pos hlen]
    exact .inl rfl
  rw [if_neg hlen]
  by_cases hused : p.started = true ∨ p.result.isSome = true
  · rw [if_pos hused]
    exact .inl rfl
  rw [if_neg hused]
  refine .inr ?_
  cases o with
  | unsupervised cleanup =>
    cases cleanup with
    | error r => exact ⟨rfl, fun _ => ⟨rfl, fun h => by cases h⟩⟩
    | ok clean => cases clean <;> exact ⟨rfl, fun h => by cases h⟩
  | raised r running => exact ⟨rfl, fun _ => ⟨rfl, fun h => by cases h⟩⟩
  | _ => exact ⟨rfl, fun h => by cases h⟩

theorem start_launches (h : (start o b p).2 = .ok ()) : (start o b p).1.Spent := by
  rcases start_cases (o := o) (b := b) (p := p) with hs | hs
  · rw [hs] at h
    cases h
  · exact .inl hs.1

/-- **The ends of a cancel.** -/
theorem cancel_cases : (∃ r, p.result = some r ∧ cancel p = (p, some (.ok (.result r)))) ∨
    (p.started = false ∧ (cancel p).1.result = some canceledResult ∧ (cancel p).1.running = p.running) ∨
    (p.started = true ∧ (cancel p).1.started = true ∧ (cancel p).1.running = p.running ∧
      ∀ r, (cancel p).2 ≠ some (.ok r)) := by
  unfold cancel
  split
  · rename_i r hr
    exact .inl ⟨r, hr, rfl⟩
  refine .inr ?_
  split
  · rename_i hs
    exact .inl ⟨hs, rfl, rfl⟩
  · rename_i hs
    have hs : p.started = true := by simpa using hs
    split
    · exact .inr ⟨hs, hs, rfl, fun r h => by cases h⟩
    · exact .inr ⟨hs, hs, rfl, fun r h => by cases h⟩

theorem spent_cancel : (cancel p).1.Spent := by
  rcases cancel_cases (p := p) with ⟨r, hr, hc⟩ | ⟨-, hr, -⟩ | ⟨-, hs, -⟩
  · rw [hc]
    exact .inr (by rw [hr]; rfl)
  · exact .inr (by rw [hr]; rfl)
  · exact .inl hs

theorem idle_cancel (h : p.running = false) : (cancel p).1.running = false := by
  rcases cancel_cases (p := p) with ⟨r, -, hc⟩ | ⟨-, -, hrun⟩ | ⟨-, -, hrun, -⟩
  · rw [hc]
    exact h
  · exact hrun.trans h
  · exact hrun.trans h

theorem cancel_reaped {r : Raw} (h : (cancel p).2 = some (.ok r)) (hr : r.clean = true) : (cancel p).1.running = false := by
  rcases cancel_cases (p := p) with ⟨r', hr', hc⟩ | ⟨hs, -, hrun⟩ | ⟨-, -, -, hne⟩
  · rw [hc] at h ⊢
    cases h
    exact p.proven r' hr' hr
  · exact hrun.trans (idle_unstarted hs)
  · exact absurd h (hne r)

/-- **The ends of the wait**: what runs stays so, and what is given is recorded. -/
theorem await_cases : (await o p).1.started = p.started ∧ (await o p).1.running = p.running ∧
    (p.result.isSome = true → (await o p).1.result.isSome = true) ∧
    ∀ r, (await o p).2 = .ok r → ∃ r', r = .result r' ∧ (await o p).1.result = some r' := by
  unfold await
  split
  · exact ⟨rfl, rfl, id, fun r h => by cases h⟩
  · split
    · rename_i r hr
      exact ⟨rfl, rfl, id, fun r' h => by cases h; exact ⟨r, rfl, hr⟩⟩
    · exact ⟨rfl, rfl, fun _ => rfl, fun r' h => by cases h; exact ⟨_, rfl, rfl⟩⟩

theorem spent_await (h : p.Spent) : (await o p).1.Spent := by
  obtain ⟨hstarted, -, hresult, -⟩ := await_cases (o := o) (p := p)
  rcases h with h | h
  · exact .inl (hstarted.trans h)
  · exact .inr (hresult h)

theorem await_reaped {r : Raw} (h : (await o p).2 = .ok r) (hr : r.clean = true) : (await o p).1.running = false := by
  obtain ⟨-, -, -, hgiven⟩ := await_cases (o := o) (p := p)
  obtain ⟨r', rfl, hr'⟩ := hgiven r h
  exact (await o p).1.proven r' hr' hr

/-- **What an event does.** -/
theorem event_cases : (event o p).started = p.started ∧ (p.running = false → (event o p).running = false) ∧
    (p.result.isSome = true → (event o p).result.isSome = true) ∧ (p.thread ≠ .alive → event o p = p) := by
  unfold event
  split
  · rename_i ha
    refine ⟨?_, ?_, ?_, fun hne => absurd ha hne⟩
    · cases o <;> rfl
    · intro hrun
      cases o with
      | exits => rfl
      | ends status stdout code cleanup =>
        show (p.running && !cleanup) = false
        rw [hrun, Bool.false_and]
      | _ => exact hrun
    · intro hres
      cases o with
      | ends status stdout code cleanup =>
        show (p.result.or _).isSome = true
        rw [Option.isSome_or, hres, Bool.true_or]
      | _ => exact hres
  · exact ⟨rfl, id, id, fun _ => rfl⟩

theorem spent_event (h : p.Spent) : (event o p).Spent := by
  obtain ⟨hstarted, -, hresult, -⟩ := event_cases (o := o) (p := p)
  rcases h with h | h
  · exact .inl (hstarted.trans h)
  · exact .inr (hresult h)

theorem poll_reaped {r : Raw} (h : poll p = .ok (some r)) (hr : r.clean = true) : p.running = false ∧ p.Spent := by
  have hres : p.result.map Raw.result = some r := Except.ok.inj h
  obtain ⟨r', hr', rfl⟩ := Option.map_eq_some_iff.1 hres
  exact ⟨p.proven r' hr' hr, .inr (by rw [hr']; rfl)⟩

theorem quiet_start (h : p.Quiet) (hs : (start o b p).2 = .error .exception) : (start o b p).1.Quiet := by
  rcases start_cases (o := o) (b := b) (p := p) with hp | hp
  · rw [hp]
    exact h
  · exact hp.2 hs

/-- **An owned process is a worker.** -/
def worker : Worker where
  State := OwnedProcess
  System := System
  fresh := new
  start := start
  poll := poll
  cancel := cancel
  await := await
  event := event
  running := OwnedProcess.running
  spent := Spent
  quiet := Quiet
  start_spent := start_spent
  spent_start _ _ _ h := start_launches h
  spent_cancel _ := spent_cancel
  spent_await _ _ h := spent_await h
  spent_event _ _ h := spent_event h
  idle_fresh := rfl
  idle_cancel _ h := idle_cancel h
  idle_await _ _ h := await_cases.2.1.trans h
  idle_event _ _ h := event_cases.2.1 h
  poll_reaped _ _ h hr := poll_reaped h hr
  cancel_reaped _ _ h hr := cancel_reaped h hr
  await_reaped _ _ _ h hr := await_reaped h hr
  poll_ok _ := ⟨_, rfl⟩
  quiet_fresh := ⟨rfl, by decide⟩
  quiet_start _ _ _ h hs := quiet_start h hs
  quiet_event _ s h := by
    rw [event_cases.2.2.2 h.2]
    exact h
  quiet_poll s h := by
    show Except.ok (s.result.map Raw.result) = .ok none
    rw [h.1, Option.map_none]

end OwnedProcess

end Process

end Arhugula
