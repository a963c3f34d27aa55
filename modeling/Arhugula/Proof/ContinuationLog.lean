import Arhugula.Proof.ContinuationSafety

/-!
# What the continuation guarantees over whole runs

A ticket is closed after it was claimed, worked on, verified and committed, and validated again in between; the commit
is on disk then; and no run closes more tickets than it was to (`closed_in_order`). Nothing is begun after a commit until
its ticket was closed or resolved (`commit_is_settled`), and no ticket is claimed after another until it is on disk what
became of that (`claim_is_settled`). Callbacks may raise, and the process may be killed while one is under way.
-/

namespace Arhugula

namespace Continuation

open Strings Lit Backlog Reentrant

variable {e : Env} {op : Op} {t : Text} {st : State} {c : Config State Op Answer Exc Method Record}
  {newer mid older : List CEntry} {y z : CEntry}

/-! ## A ticket, and one that is resolved -/

/-- The callback that an entry is. -/
def called (z : CEntry) : Option Op :=
  match z.act with
  | .call op => some op
  | _ => none

theorem act_of_called (h : called z = some op) : z.act = .call op := by
  unfold called at h
  cases hact : z.act with
  | call op' =>
    rw [hact] at h
    rw [Option.some.inj h]
  | _ =>
    rw [hact] at h
    cases h

/-- A callback of a log is found there. -/
theorem split_of_called {log : List CEntry} {n : ℕ} (h : (log.drop n).head?.bind called = some op) :
    ∃ (z : CEntry) (older : List CEntry), log = log.take n ++ z :: older ∧ z.act = .call op := by
  obtain ⟨z, hz, hop⟩ := Option.bind_eq_some_iff.1 h
  obtain ⟨older, hdrop⟩ := List.head?_eq_some_iff.1 hz
  exact ⟨z, older, by rw [← hdrop, List.take_append_drop], act_of_called hop⟩

/-- The last callback of a log, and an earlier one. -/
theorem split_between {log : List CEntry} {n : ℕ} {op' : Op} (h : (log.drop n).head?.bind called = some op)
    (h' : (log.take n).head?.bind called = some op') :
    ∃ (z : CEntry) (mid : List CEntry) (y : CEntry) (older : List CEntry),
      log = [] ++ z :: (mid ++ y :: older) ∧ y.act = .call op ∧ z.act = .call op' := by
  obtain ⟨y, older, hlog, hy⟩ := split_of_called h
  obtain ⟨z, hz, hop⟩ := Option.bind_eq_some_iff.1 h'
  obtain ⟨mid, htake⟩ := List.head?_eq_some_iff.1 hz
  rw [htake] at hlog
  exact ⟨z, mid, y, older, hlog, hy, act_of_called hop⟩

namespace Example

def env : Env := ⟨⟨id, fun _ => false⟩, fun _ => 0, "/w".toList, "/h".toList⟩

def settings : Settings := ⟨"goal".toList, 2, 60, 2048⟩

/-- LIT, with one ticket in a status. -/
def lit (status : String) : Answer :=
  .exported (some (.int 2)) ⟨[⟨"t".toList, [("status", .str status), ("title", .str "title"),
    ("labels", .arr [.str "autonomous-safe", .str "capability:tests"])]⟩], [], []⟩

def checkout (head : String) : Answer := .checkout ⟨"main".toList, head.toList, "/w".toList⟩

/-- The answers up to the claim. -/
def chosen : List Answer := [.time 0, .text "t".toList, .time 0, lit "open", checkout "h", .none, .none]

/-- The answers up to the end of the ticket. -/
def closed : List Answer := chosen ++ [
  Answer.none, .text [], .text [], checkout "h", lit "in_progress", .none,
  .receipt (.obj [("files", .arr [.str "a"]), ("summary", .str "s"), ("risks", .arr [])]),
  checkout "h", lit "in_progress", .none, .verdict true "ok".toList, checkout "h", lit "in_progress", .none, .none,
  .none, .none, .text "c".toList, .none, .none, checkout "c", lit "in_progress", .none]

/-- The answers up to the claim of another. -/
def again : List Answer := closed ++ [Answer.none, .none, .none, .none, .text "t".toList, lit "open", .none, .none] ++
  [Answer.time 0, lit "open", checkout "c", .none, .none]

/-- A ticket is claimed, and the process is killed; an operator resolves it, and it is claimed again. -/
def resolved : List (Input Answer Method) :=
  (.invoke (.run settings) :: chosen.map .reply : List (Input Answer Method)) ++
    ([.crash, .invoke (.resolve "evidence".toList "now".toList), .reply .none, .reply .none] : List (Input Answer Method)) ++
    (.invoke (.run settings) :: chosen.map .reply : List (Input Answer Method))

def start : State := ⟨none, .fresh env []⟩

end Example

/-! ## The order of a ticket -/

/-- **A ticket is closed in order**: since the run claimed it, the claim was held before the worker, after it, after the
verification that passed, and after the commit. The commit is on disk, and the run may close one more ticket. -/
theorem closed_in_order (h : (machine e).Reachable st c) (hlog : c.w.log = newer ++ z :: older)
    (hz : z.act = .call (.done t)) :
    ∃ commit rest x summary r, trail older = published t commit ++ rest ∧ running older = some x ∧
      (rest.filter Mark.isDone).length < x.limit ∧ z.st.disk = some r ∧ line t commit summary ∈ r.completedWork := by
  have hsafe := safe_throughout h
  rw [hlog] at hsafe
  exact hsafe.at.closes t hz

theorem closed_in_order_run : ∃ (c : Config State Op Answer Exc Method Record) (older : List CEntry),
    (machine Example.env).Reachable Example.start c ∧
      ∃ commit rest, trail older = published "t".toList commit ++ rest := by
  obtain ⟨c, hc, hx⟩ := Machine.Reachable.of_run (machine Example.env) Example.start
    (.invoke (.run Example.settings) :: Example.closed.map .reply)
    (fun c => (c.w.log.drop 0).head?.bind called = some (.done "t".toList)) (by decide +kernel)
  obtain ⟨z, older, hlog, hz⟩ := split_of_called (of_decide_eq_true hx)
  obtain ⟨commit, rest, x, summary, r, htrail, -⟩ := closed_in_order hc hlog hz
  exact ⟨c, older, hc, commit, rest, htrail⟩

/-! ## What was left -/

/-- What settles what was left: the ticket is closed, or what an operator has resolved is on disk. -/
def Settles (y : CEntry) (older : List CEntry) : Prop :=
  (∃ t a, y.act = .reply (.done t) a ∧ a.isRaised = false) ∨ y.act = .call .sync ∧ running older = none

/-- A handoff is on disk that gives a reason. -/
def Excuses (y : CEntry) : Prop := y.act = .call .sync ∧ ∃ r, y.st.disk = some r ∧ r.stopReason ≠ some interrupted

/-- **What an entry makes of what was left**, unless it settles it. -/
theorem standing_cases (hy : ¬ Settles y older) :
    standing (y :: older) = standing older ∨ standing (y :: older) = (standing older).left ∨
      standing (y :: older) = { standing older with underway := true } ∨
      standing (y :: older) = { standing older with unresolved := true } ∨
      y.act = .call .sync ∧ standing (y :: older) = (standing older).wrote y.st.disk := by
  rw [standing]
  cases hact : y.act with
  | invoke m => exact .inr (.inl rfl)
  | call op =>
    cases op with
    | start t => exact .inr (.inr (.inl rfl))
    | commit t files => exact .inr (.inr (.inr (.inl rfl)))
    | sync =>
      have hrun : running older ≠ none := fun hnone => hy (.inr ⟨hact, hnone⟩)
      exact .inr (.inr (.inr (.inr ⟨rfl, if_neg hrun⟩)))
    | _ => exact .inl rfl
  | reply op a =>
    cases op with
    | done t =>
      cases ha : a.isRaised with
      | true => exact .inl (if_pos ha)
      | false => exact absurd (.inl ⟨t, a, hact, ha⟩) hy
    | _ => exact .inl rfl
  | ret v => exact .inl rfl
  | crash => exact .inl rfl

theorem wrote_unresolved (s : Standing) (r : Option Record) : (s.wrote r).unresolved = s.unresolved := by
  unfold Standing.wrote
  split <;> rfl

/-- What was left is left, as long as nothing settles it. -/
theorem standing_unsettled (hmid : ∀ m₁ y m₂, mid = m₁ ++ y :: m₂ → ¬ Settles y (m₂ ++ older))
    (h : (standing older).unresolved = true) : (standing (mid ++ older)).unresolved = true := by
  induction mid with
  | nil => exact h
  | cons y mid ih =>
    have hrest := ih fun m₁ y' m₂ heq => hmid (y :: m₁) y' m₂ (by rw [heq]; rfl)
    rw [List.cons_append]
    rcases standing_cases (hmid [] y mid rfl) with hs | hs | hs | hs | ⟨-, hs⟩ <;> rw [hs]
    · exact hrest
    · show ((standing (mid ++ older)).unresolved || (standing (mid ++ older)).underway) = true
      rw [hrest, Bool.true_or]
    · exact hrest
    · rw [wrote_unresolved]
      exact hrest

/-- What is under way is under way or left, as long as nothing settles it and no handoff gives a reason. -/
theorem standing_unexcused (hmid : ∀ m₁ y m₂, mid = m₁ ++ y :: m₂ → ¬ Settles y (m₂ ++ older) ∧ ¬ Excuses y)
    (h : standing older ≠ .clear) : standing (mid ++ older) ≠ .clear := by
  induction mid with
  | nil => exact h
  | cons y mid ih =>
    have hrest := ih fun m₁ y' m₂ heq => hmid (y :: m₁) y' m₂ (by rw [heq]; rfl)
    obtain ⟨hsettles, hexcuses⟩ := hmid [] y mid rfl
    have hleft : ∀ {s : Standing}, s ≠ .clear → s.left ≠ .clear := by
      intro s hs hl
      obtain ⟨u, v⟩ := s
      cases u <;> cases v <;> first | exact hs rfl | cases hl
    rw [List.cons_append]
    rcases standing_cases hsettles with hs | hs | hs | hs | ⟨hsync, hs⟩ <;> rw [hs]
    · exact hrest
    · exact hleft hrest
    · exact fun hc => Bool.noConfusion (congrArg Standing.underway hc)
    · exact fun hc => Bool.noConfusion (congrArg Standing.unresolved hc)
    · have hall : (y.st.disk.all fun r => r.stopReason = some interrupted) = true := by
        cases hdisk : y.st.disk with
        | none => rfl
        | some r => exact decide_eq_true (not_not.1 fun hne => hexcuses ⟨hsync, r, hdisk, hne⟩)
      unfold Standing.wrote
      rw [if_pos hall]
      exact hrest

/-- **What was committed is settled before more is begun**: between a commit and the next claim, or the next worker, the
ticket was closed or an operator resolved it. -/
theorem commit_is_settled (h : (machine e).Reachable st c) (hlog : c.w.log = newer ++ z :: (mid ++ y :: older))
    {files : List Text} (hy : y.act = .call (.commit t files))
    (hz : (∃ t', z.act = .call (.start t')) ∨ ∃ context, z.act = .call (.worker context)) :
    ∃ m₁ u m₂, mid = m₁ ++ u :: m₂ ∧ Settles u (m₂ ++ y :: older) := by
  by_contra hnone
  have hleft : (standing (mid ++ y :: older)).unresolved = true :=
    standing_unsettled (fun m₁ u m₂ heq hu => hnone ⟨m₁, u, m₂, heq, hu⟩) (by rw [standing, hy])
  have hsafe := safe_throughout h
  rw [hlog] at hsafe
  rcases hz with ⟨t', hz⟩ | ⟨context, hz⟩
  · rw [hsafe.at.starts t' hz] at hleft
    cases hleft
  · rw [hsafe.at.works context hz] at hleft
    cases hleft

theorem commit_is_settled_run : ∃ (c : Config State Op Answer Exc Method Record) (mid older : List CEntry)
    (y z : CEntry), (machine Example.env).Reachable Example.start c ∧ c.w.log = [] ++ z :: (mid ++ y :: older) ∧
      ∃ m₁ u m₂, mid = m₁ ++ u :: m₂ ∧ Settles u (m₂ ++ y :: older) := by
  obtain ⟨c, hc, hx⟩ := Machine.Reachable.of_run (machine Example.env) Example.start
    (.invoke (.run Example.settings) :: Example.again.map .reply)
    (fun c => (c.w.log.drop 38).head?.bind called = some (.commit "t".toList ["a".toList]) ∧
      (c.w.log.take 38).head?.bind called = some (.start "t".toList)) (by decide +kernel)
  obtain ⟨hcommit, hstart⟩ := of_decide_eq_true hx
  obtain ⟨z, mid, y, older, hlog, hy, hz⟩ := split_between hcommit hstart
  exact ⟨c, mid, older, y, z, hc, hlog, commit_is_settled hc hlog hy (.inl ⟨_, hz⟩)⟩

/-- **What was claimed is accounted for before more is claimed**: between two claims, the ticket was closed, an operator
resolved it, or a handoff on disk says why it was not closed. -/
theorem claim_is_settled (h : (machine e).Reachable st c) (hlog : c.w.log = newer ++ z :: (mid ++ y :: older))
    {t' : Text} (hy : y.act = .call (.start t)) (hz : z.act = .call (.start t')) :
    ∃ m₁ u m₂, mid = m₁ ++ u :: m₂ ∧ (Settles u (m₂ ++ y :: older) ∨ Excuses u) := by
  by_contra hnone
  have hleft : standing (mid ++ y :: older) ≠ .clear := by
    refine standing_unexcused (fun m₁ u m₂ heq => not_or.1 fun hu => hnone ⟨m₁, u, m₂, heq, hu⟩) fun hc => ?_
    rw [standing, hy] at hc
    cases hc
  have hsafe := safe_throughout h
  rw [hlog] at hsafe
  exact hleft (hsafe.at.starts t' hz)

theorem claim_is_settled_run : ∃ (c : Config State Op Answer Exc Method Record) (mid older : List CEntry)
    (y z : CEntry), (machine Example.env).Reachable Example.start c ∧ c.w.log = [] ++ z :: (mid ++ y :: older) ∧
      ∃ m₁ u m₂, mid = m₁ ++ u :: m₂ ∧ (Settles u (m₂ ++ y :: older) ∨ Excuses u) := by
  obtain ⟨c, hc, hx⟩ := Machine.Reachable.of_run (machine Example.env) Example.start Example.resolved
    (fun c => (c.w.log.drop 23).head?.bind called = some (.start "t".toList) ∧
      (c.w.log.take 23).head?.bind called = some (.start "t".toList)) (by decide +kernel)
  obtain ⟨hfirst, hsecond⟩ := of_decide_eq_true hx
  obtain ⟨z, mid, y, older, hlog, hy, hz⟩ := split_between hfirst hsecond
  exact ⟨c, mid, older, y, z, hc, hlog, claim_is_settled hc hlog hy hz⟩

end Continuation

end Arhugula
