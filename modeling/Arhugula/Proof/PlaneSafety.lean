import Arhugula.Proof.PlaneMethods

/-!
# Authorization and evidence

The two safety results about a plane, for every run from freshly made planes with any
policies, profiles, catalogs and journal, whatever the callbacks answer and however
they call back into the planes:

* `run_authorized`: **what is executed is authorized at that moment**, approved by a
  single-use token where approval is needed, and no catalog moves meanwhile.
* `run_honest`: **a result that `dispatch` or `confirm` returns tells what happened.**
-/

namespace Arhugula

namespace Plane

open Reentrant Vm

theorem renew_tables (s : State) (p : ℕ) : ((restart s).planes p).confirmations = [] := rfl

/-- The invariant holds in every reachable configuration. -/
theorem auth_reachable (s : State) {c : Config State Op Answer Exc Method Value}
    (h : (machine anyPlane).Reachable (restart s) c) : AuthInv c.w := by
  refine Contract.sound authContract_kept ?_ h
  refine ⟨trivial, fun e he => ?_, fun p i hi => ?_, fun p token preview key hmem => ?_,
    fun p q token v v' hv => ?_, fun e he => ?_, fun _ => rfl, fun _ => List.nodup_nil⟩
  · cases he
  · cases hi
  · have := renew_tables s p ▸ hmem
    cases this
  · have := renew_tables s p ▸ hv
    cases this
  · cases he

/-- **Authorization.** Of every entry `e` of the log of a run, with the entries before it:
if it calls an executor, the plane allows the command at that moment, and the command
is approved if the catalog, the policy or the history read by this call wants it so;
the token of an approval has no other execution; if it returns from `replace_catalog`,
no authorization is under way and the version is later than all before; while an
authorization is under way the catalog is what it was at its call; and versions never
fall. -/
theorem run_authorized (s : State) {c : Config State Op Answer Exc Method Value}
    (h : (machine anyPlane).Reachable (restart s) c) (newer older : List PEntry) (e : PEntry)
    (hlog : c.w.log = newer ++ e :: older) :
    Authorized e older ∧ SingleUse e older ∧ Replaced e older ∧ Held e older ∧ Rising e older := by
  have hlawful := (auth_reachable s h).lawful
  rw [hlog] at hlawful
  have := hlawful.at
  exact ⟨this.authorized, this.single, this.replaced, this.held, this.rising⟩

/-- A plane whose one capability is to be confirmed. -/
def cautious : ControlPlane :=
  { permissive with catalog := [⟨"act", 1, true, .confirm, [], "test"⟩] }

/-- Such planes, and an empty journal. -/
def cautiousState : State := { permissiveState with planes := fun _ => cautious }

/-- Request a confirmation of `x`, then confirm it. -/
def confirmedRun : List (Input Answer Method) :=
  [.invoke (.requestConfirmation 0 (act "x") (some "key")), .reply (.time 0), .reply (.text "token"),
    .reply (.text "e1"), .reply (.time 0), .reply .done,
    .invoke (.confirm 0 (some "token") "panel" (some "key") (some true) none), .reply (.time 1),
    .reply (.text "e2"), .reply (.time 1), .reply .done, .reply .done, .reply (.time 1),
    .reply (.time 1), .reply (.text "e3"), .reply .done]

theorem run_authorized_confirmed :
    ∃ c, ∃ e : PEntry, ∃ older, (machine anyPlane).Reachable (restart cautiousState) c ∧ c.w.log = e :: older ∧
      e.executes = true ∧ Authorized e older ∧ SingleUse e older ∧ Replaced e older ∧
      Held e older ∧ Rising e older := by
  obtain ⟨c, hc, hx⟩ := Machine.Reachable.of_run (machine anyPlane) (restart cautiousState)
    confirmedRun (fun c => c.w.log.head?.any PEntry.executes) (by decide)
  cases hlog : c.w.log with
  | nil => rw [hlog] at hx; cases hx
  | cons e older =>
    rw [hlog] at hx
    exact ⟨c, e, older, hc, hlog, hx, run_authorized cautiousState hc [] older e hlog⟩

/-- **Evidence.** If an entry of the log returns a result, from `dispatch` or `confirm`:
a success has its start and its successful finish in the journal, and its one
execution in this call; a call that ran the executor has stored its completion or
returns `uncertain`; a blocked call has not run it; and a canceled one has not run it,
or the executor reported the cancellation and that is stored. -/
theorem run_honest (s : State) {c : Config State Op Answer Exc Method Value}
    (h : (machine anyPlane).Reachable (restart s) c) (newer older : List PEntry) (e : PEntry)
    (hlog : c.w.log = newer ++ e :: older) {r : Result} (hr : e.act = .ret (.ok (.result r))) :
    Honest older e.st.journal e.frame r := by
  have hlawful := (auth_reachable s h).lawful
  rw [hlog] at hlawful
  exact hlawful.at.honest r hr

/-- The entry returns a success. -/
def returnsSuccess (e : PEntry) : Option Result :=
  match e.act with
  | .ret (.ok (.result r)) => if r.status = .success then some r else none
  | _ => none

theorem run_honest_success :
    ∃ c e older r, (machine anyPlane).Reachable (restart permissiveState) c ∧
      c.w.log = e :: older ∧ e.act = .ret (.ok (.result r)) ∧ r.status = .success ∧
      Honest older e.st.journal e.frame r := by
  obtain ⟨c, hc, hx⟩ := Machine.Reachable.of_run (machine anyPlane) (restart permissiveState)
    [.invoke (.dispatch 0 (act "x") (some false) none), .reply .done, .reply (.time 0),
      .reply (.time 0), .reply (.text "e1"), .reply .done,
      .reply (.outcome ⟨"success", some [], none⟩), .reply (.text "r1"), .reply (.time 1),
      .reply (.text "e2"), .reply .done]
    (fun c => (c.w.log.head?.bind returnsSuccess).isSome) (by decide)
  cases hlog : c.w.log with
  | nil => rw [hlog] at hx; cases hx
  | cons e older =>
    rw [hlog] at hx
    obtain ⟨r, hr⟩ := Option.isSome_iff_exists.1 hx
    have hret : e.act = .ret (.ok (.result r)) ∧ r.status = .success := by
      simp only [List.head?_cons, Option.bind_some, returnsSuccess] at hr
      split at hr
      · rename_i r' hact
        split at hr
        · rename_i hs
          cases hr
          exact ⟨hact, hs⟩
        · cases hr
      · cases hr
    exact ⟨c, e, older, r, hc, hlog, hret.1, hret.2,
      run_honest permissiveState hc [] older e hlog hret.1⟩

end Plane

end Arhugula
