import Arhugula.Proof.WatchState

/-!
# What the watch guarantees

However a transcript is split into polls, which may be killed in between, what is saved after a poll that returns is
what one scan of the whole transcript returns (`incremental_scan`).

A poll is not done with a session whose transcript does not exist yet: what it is scanned from has no count of
compactions, which the poll reads. So a poll does what it is for only where no transcript is missing (`watched_iff`).
-/

namespace Arhugula

namespace Watch

variable {h : Host} {t : Texts} {p : Poll} {d : Disk} {files files' : Str → Option File} {session : Session}
  {saved saved' : Saved} {steps : ℕ → Step} {n : ℕ}

/-! ## Scans of a growing transcript -/

/-- What is saved of a session is measured of its transcript. -/
def Tracked (h : Host) (files : Str → Option File) (saved : Saved) : Prop :=
  ∃ file, files saved.transcript = some file ∧ saved.fileIdentity = some file.identity ∧
    Measured h saved.kind file.bytes saved.summary.state saved.offset

theorem Tracked.grow (ht : Tracked h files saved) (hg : Grows files files') : Tracked h files' saved := by
  obtain ⟨file, hfile, hid, hm⟩ := ht
  obtain ⟨file', hfile', hid', hprefix⟩ := hg _ _ hfile
  exact ⟨file', hfile', by rw [hid, hid'], hm.grow hprefix⟩

theorem Tracked.same (ht : Tracked h files saved) (hs : SameScan saved saved') : Tracked h files saved' := by
  unfold Tracked
  rw [hs.transcript, hs.fileIdentity, hs.kind, hs.summary, hs.offset]
  exact ht

/-- What a session is scanned from: what was saved of it, or nothing. -/
theorem of_cases (session : Session) (previous : Option Saved) :
    (∃ saved, previous = some saved ∧ Saved.of session previous = saved ∧ saved.kind = session.kind ∧
      saved.sessionId = session.sessionId ∧ saved.transcript = session.transcript) ∨
    Saved.of session previous = Saved.of session none := by
  unfold Saved.of
  cases hf : previous.filter fun p =>
      decide (p.kind = session.kind ∧ p.sessionId = session.sessionId ∧ p.transcript = session.transcript) with
  | none => exact .inr rfl
  | some saved =>
    obtain ⟨hprevious, hsame⟩ := Option.filter_eq_some_iff.1 hf
    rw [decide_eq_true_eq] at hsame
    exact .inl ⟨saved, hprevious, rfl, hsame⟩

/-- What was scanned of a session, and of which file. -/
structure Scanned (h : Host) (files : Str → Option File) (session : Session) (saved : Saved) : Prop where
  kind : saved.kind = session.kind
  sessionId : saved.sessionId = session.sessionId
  transcript : saved.transcript = session.transcript
  scan : ∃ file, files session.transcript = some file ∧ saved.fileIdentity = some file.identity ∧
    Watch.scan h file.bytes (.fresh session.kind) 0 = .ok (saved.summary, saved.offset)

theorem Scanned.same (hs : Scanned h files session saved) (h' : SameScan saved saved') : Scanned h files session saved' := by
  obtain ⟨file, hfile, hid, hscan⟩ := hs.scan
  refine ⟨h'.kind.trans hs.kind, h'.sessionId.trans hs.sessionId, h'.transcript.trans hs.transcript, file, hfile, ?_, ?_⟩
  · rw [h'.fileIdentity, hid]
  · rw [h'.summary, h'.offset, hscan]

theorem Scanned.tracked (hs : Scanned h files session saved) : Tracked h files saved := by
  obtain ⟨file, hfile, hid, hscan⟩ := hs.scan
  refine ⟨file, by rw [hs.transcript, hfile], hid, ?_⟩
  rw [hs.kind]
  exact (scan_ok (Measured.start h session.kind file.bytes) hscan).1

/-- **A transcript that is there is scanned** as if at once. -/
theorem scanWatchSession_file {file : File} {previous : Option Saved} (hfile : files session.transcript = some file)
    (hp : ∀ saved, previous = some saved → Tracked h files saved) :
    scanWatchSession h files session previous = (Watch.scan h file.bytes (.fresh session.kind) 0).map fun r =>
      { Saved.of session previous with summary := r.1, offset := r.2, fileIdentity := some file.identity } := by
  have hmeasured : Measured h session.kind file.bytes (Saved.of session previous).summary.state
      (Saved.of session previous).offset ∧
      (Saved.of session previous).fileIdentity.any (fun identity => identity ≠ file.identity) = false := by
    rcases of_cases session previous with ⟨saved, hprevious, heq, hkind, -, htranscript⟩ | heq
    · obtain ⟨file', hfile', hid, hm⟩ := hp saved hprevious
      rw [htranscript, hfile] at hfile'
      cases hfile'
      rw [heq, hid, ← hkind]
      exact ⟨hm, by simp⟩
    · rw [heq]
      exact ⟨Measured.start h session.kind file.bytes, rfl⟩
  obtain ⟨hm, hid⟩ := hmeasured
  have hwithin := hm.within
  unfold scanWatchSession
  rw [hfile]
  dsimp only
  rw [hid, if_neg Bool.false_ne_true, if_neg (by omega), scan_resume hm]
  cases Watch.scan h file.bytes (.fresh session.kind) 0 <;> rfl

theorem scanWatchSession_scanned {previous : Option Saved} (hp : ∀ saved, previous = some saved → Tracked h files saved)
    (hs : scanWatchSession h files session previous = .ok saved) (hc : saved.summary.compactionCount.isSome) :
    Scanned h files session saved := by
  have hof : (Saved.of session previous).kind = session.kind ∧
      (Saved.of session previous).sessionId = session.sessionId ∧
      (Saved.of session previous).transcript = session.transcript := by
    rcases of_cases session previous with ⟨saved, -, heq, hsame⟩ | heq
    · rw [heq]
      exact hsame
    · rw [heq]
      exact ⟨rfl, rfl, rfl⟩
  cases hfile : files session.transcript with
  | none =>
    exfalso
    rcases of_cases session previous with ⟨old, hprevious, -, -, -, htranscript⟩ | heq
    · obtain ⟨file, hold, -⟩ := hp old hprevious
      rw [htranscript, hfile] at hold
      cases hold
    · unfold scanWatchSession at hs
      rw [hfile, heq] at hs
      cases hs
      cases hc
  | some file =>
    rw [scanWatchSession_file hfile hp] at hs
    cases hscan : Watch.scan h file.bytes (.fresh session.kind) 0 with
    | error e =>
      rw [hscan] at hs
      cases hs
    | ok r =>
      rw [hscan] at hs
      cases hs
      exact ⟨hof.1, hof.2.1, hof.2.2, file, hfile, rfl, hscan⟩

/-- What a session's poll saves, from what is tracked. -/
theorem pollSession_scanned {m m' : Memory} (hm : Each (Tracked h p.files) m.state)
    (hp : pollSession h t p m session = .ok m') :
    ∃ saved, m'.saved session.role = some saved ∧ Scanned h p.files session saved := by
  obtain ⟨saved, events, saved', hscan, hc, rfl⟩ := pollSession_ok hp
  obtain ⟨hsame, hcount⟩ := candidateEvents_same hc
  refine ⟨saved', by rw [saved_checkpoint, if_pos rfl], ?_⟩
  exact (scanWatchSession_scanned (fun old hold => hm _ (saved_mem hold)) hscan hcount).same hsame

theorem pollSession_keeps {m m' : Memory} (hm : Keeps (Each (Tracked h p.files)) m)
    (hp : pollSession h t p m session = .ok m') : Keeps (Each (Tracked h p.files)) m' := by
  obtain ⟨saved, hsaved, hscanned⟩ := pollSession_scanned hm.state hp
  obtain ⟨_, events, saved', -, -, rfl⟩ := pollSession_ok hp
  rw [saved_checkpoint, if_pos rfl] at hsaved
  cases hsaved
  exact (Keeps.emits _ events hm).checkpoint hscanned.tracked _

/-! ## Runs -/

theorem Step.disk_tracked {x : Step} (hd : Holds (Each (Tracked h x.poll.files)) d) :
    Holds (Each (Tracked h x.poll.files)) (x.disk h t d) := by
  have hkeeps : Keeps (Each (Tracked h x.poll.files)) (watchOnce h t x.poll d).1 :=
    watchOnce_keeps hd fun session _ m m' hm hp => pollSession_keeps hm hp
  unfold Step.disk
  split
  · exact hkeeps.after hd
  · exact hkeeps.crashed hd _

/-- **Along a run** every session that is on disk is tracked. -/
theorem disks_tracked (hg : ∀ n, Grows (steps n).poll.files (steps (n + 1)).poll.files) (n : ℕ) :
    Holds (Each (Tracked h (steps n).poll.files)) (disks h t steps n) := by
  induction n with
  | zero => exact ⟨⟨[], [], []⟩, rfl, fun x hx => by cases hx⟩
  | succ n ih =>
    obtain ⟨state, hload, htracked⟩ := Step.disk_tracked (t := t) ih
    exact ⟨state, hload, fun x hx => (htracked x hx).grow (hg n)⟩

/-! ## An example -/

namespace Example

/-- A record, of this type and payload. -/
def recordOf (type : String) (payload : List (Str × Json)) : Json :=
  .dict [(str "type", .str (str type)), (str "payload", .dict payload)]

/-- Three lines are known: one names the session, one starts a task, one ends it. -/
def host : Host where
  loads line :=
    if line = [1, 10] then .ok (recordOf "session_meta" [(str "session_id", .str (str "s"))])
    else if line = [2, 10] then .ok (recordOf "event_msg" [(str "type", .str (str "task_started"))])
    else if line = [3, 10] then .ok (recordOf "event_msg" [(str "type", .str (str "task_complete"))])
    else .error true
  sha256 s := s

def texts : Texts where
  eventId role _ _ type marker := role ++ [match type with
    | .completion => 0
    | .compaction => 1
    | .admission => 2, marker]
  marker a := [if a.allow then 1 else 0]

/-- A session of this role, whose transcript is this file. -/
def coding (role transcript : String) : Session where
  role := str role
  kind := .codex
  sessionId := str "s"
  transcript := str transcript
  ceiling := 100
  taskBudget := 10
  reserve := 10

def config : Config := ⟨false, none, [coding "coder" "a"], by decide, by decide⟩

/-- One transcript: at first the last line is not complete. -/
def transcript (bytes : List UInt8) (path : Str) : Option File :=
  if path = str "a" then some ⟨(1, 1), bytes⟩ else none

/-- A poll while a task ends, then polls after it. -/
def growing (n : ℕ) : Step where
  poll := ⟨config, none, transcript (if n = 0 then [1, 10, 2, 10, 3] else [1, 10, 2, 10, 3, 10])⟩
  crash := none

theorem growing_grows (n : ℕ) : Grows (growing n).poll.files (growing (n + 1)).poll.files := by
  intro path file hfile
  unfold growing transcript at hfile ⊢
  dsimp only at hfile ⊢
  split at hfile
  · rename_i hpath
    rw [Option.some.injEq] at hfile
    subst hfile
    rw [if_pos hpath]
    refine ⟨_, rfl, rfl, ?_⟩
    by_cases h0 : n = 0
    · simp [h0]
    · simp [h0]
  · cases hfile

end Example

/-- **The incremental scan is the scan at once**: after a poll that returns, for each of its sessions, whatever polls
came before. -/
theorem incremental_scan (hg : ∀ n, Grows (steps n).poll.files (steps (n + 1)).poll.files)
    (ho : (watchOnce h t (steps n).poll (disks h t steps n)).2 = none) (hc : (steps n).crash = none)
    (hs : session ∈ (steps n).poll.config.sessions) :
    ∃ state saved file, loadState (disks h t steps (n + 1)) = some state ∧ state.saved session.role = some saved ∧
      (steps n).poll.files session.transcript = some file ∧
      Watch.scan h file.bytes (.fresh session.kind) 0 = .ok (saved.summary, saved.offset) ∧
      StartupOf h session.kind (splitLines (file.bytes.take saved.offset)) saved.summary.state.startup
        saved.summary.state.completionCount := by
  obtain ⟨state, m, hload, hpoll, hafter, hsessions⟩ := watchOnce_ok ho
  obtain ⟨state', hload', htracked⟩ := disks_tracked (h := h) (t := t) hg n
  rw [hload] at hload'
  cases hload'
  have heach := pollSessions_each (I := fun m => Keeps (Each (Tracked h (steps n).poll.files)) m)
    (Q := Scanned h (steps n).poll.files) (steps n).poll.config.roles
    ⟨htracked, fun document hm => by cases hm⟩ hpoll
    (fun s _ m m' hm hp => ⟨pollSession_keeps hm hp, pollSession_scanned hm.state hp⟩) session hs
  obtain ⟨saved, hsaved, hscanned⟩ := heach
  obtain ⟨file, hfile, -, hscan⟩ := hscanned.scan
  refine ⟨(watchOnce h t (steps n).poll (disks h t steps n)).1.state, saved, file, ?_, ?_, hfile, hscan, ?_⟩
  · show loadState ((steps n).disk h t (disks h t steps n)) = _
    unfold Step.disk
    rw [hc]
    exact hafter
  · unfold WatchState.saved
    rw [hsessions]
    exact hsaved
  · exact (feedLines_fedBy (scan_ok (Measured.start h session.kind file.bytes) hscan).1.fed).startup

theorem incremental_scan_example : ∃ state saved file,
    loadState (disks Example.host Example.texts Example.growing 2) = some state ∧
      state.saved (str "coder") = some saved ∧ Example.transcript [1, 10, 2, 10, 3, 10] (str "a") = some file ∧
      scan Example.host file.bytes (.fresh .codex) 0 = .ok (saved.summary, saved.offset) ∧
      StartupOf Example.host .codex (splitLines (file.bytes.take saved.offset)) saved.summary.state.startup
        saved.summary.state.completionCount :=
  have hmem : Example.coding "coder" "a" ∈ (Example.growing 1).poll.config.sessions := List.mem_cons_self
  incremental_scan Example.growing_grows (by decide +kernel) rfl hmem

/-! ## Missing transcripts -/

/-- What is saved of a session was read from a file. -/
structure Read (saved : Saved) : Prop where
  count : saved.summary.compactionCount = some saved.summary.state.compactions.length
  identity : saved.fileIdentity.isSome
  known : Known saved.summary.state

theorem Read.same (hr : Read saved) (hs : SameScan saved saved') : Read saved' := by
  refine ⟨?_, ?_, ?_⟩
  · rw [hs.summary]
    exact hr.count
  · rw [hs.fileIdentity]
    exact hr.identity
  · rw [hs.summary]
    exact hr.known

/-- What a session is scanned from is known, too. -/
theorem of_known {previous : Option Saved} (hp : ∀ saved, previous = some saved → Read saved) :
    Known (Saved.of session previous).summary.state := by
  rcases of_cases session previous with ⟨saved, hprevious, heq, -⟩ | heq
  · rw [heq]
    exact (hp saved hprevious).known
  · rw [heq]
    exact .fresh session.kind

/-- A transcript that is there was read. -/
theorem scanWatchSession_read {previous : Option Saved} {file : File} (hfile : files session.transcript = some file)
    (hp : ∀ saved, previous = some saved → Read saved) (hs : scanWatchSession h files session previous = .ok saved) :
    Read saved := by
  unfold scanWatchSession at hs
  rw [hfile] at hs
  dsimp only at hs
  split at hs
  · cases hs
  split at hs
  · cases hs
  obtain ⟨⟨summary, offset⟩, hscan, hs⟩ := bind_ok hs
  cases hs
  obtain ⟨hknown, -, -, hcount⟩ := scan_known hscan (of_known hp)
  exact ⟨hcount, rfl, hknown⟩

/-- Of a transcript that is missing, what was saved is all that is known. -/
theorem scanWatchSession_missing {previous : Option Saved} (hfile : files session.transcript = none)
    (hs : scanWatchSession h files session previous = .ok saved) : saved = Saved.of session previous := by
  unfold scanWatchSession at hs
  rw [hfile] at hs
  dsimp only at hs
  split at hs
  · cases hs
  · cases hs
    rfl

theorem pollSession_read {m m' : Memory} (hm : Keeps (Each Read) m) (hp : pollSession h t p m session = .ok m') :
    Keeps (Each Read) m' := by
  obtain ⟨saved, events, saved', hscan, hc, rfl⟩ := pollSession_ok hp
  obtain ⟨hsame, hcount⟩ := candidateEvents_same hc
  have hold : ∀ old, m.saved session.role = some old → Read old := fun old h => hm.state _ (saved_mem h)
  refine (Keeps.emits _ events hm).checkpoint (Read.same ?_ hsame) _
  cases hfile : p.files session.transcript with
  | some file => exact scanWatchSession_read hfile hold hscan
  | none =>
    rw [scanWatchSession_missing hfile hscan] at hcount ⊢
    rcases of_cases session (m.saved session.role) with ⟨old, hprevious, heq, -⟩ | heq
    · rw [heq]
      exact hold old hprevious
    · rw [heq] at hcount
      cases hcount

/-- **Along any run** what is on disk of a session was read from a file. -/
theorem disks_read (h : Host) (t : Texts) (steps : ℕ → Step) (n : ℕ) : Holds (Each Read) (disks h t steps n) := by
  induction n with
  | zero => exact ⟨⟨[], [], []⟩, rfl, fun x hx => by cases hx⟩
  | succ n ih =>
    have hkeeps : Keeps (Each Read) (watchOnce h t (steps n).poll (disks h t steps n)).1 :=
      watchOnce_keeps ih fun session _ m m' hm hp => pollSession_read hm hp
    show Holds (Each Read) ((steps n).disk h t (disks h t steps n))
    unfold Step.disk
    split
    · exact hkeeps.after ih
    · exact hkeeps.crashed ih _

theorem mapM_ok {α β : Type} {f : α → Except Exc β} {l : List α} (hf : ∀ x ∈ l, ∃ y, f x = .ok y) :
    ∃ ys, l.mapM f = .ok ys := by
  induction l with
  | nil => exact ⟨[], rfl⟩
  | cons x l ih =>
    obtain ⟨y, hy⟩ := hf x List.mem_cons_self
    obtain ⟨ys, hys⟩ := ih fun z hz => hf z (List.mem_cons_of_mem _ hz)
    refine ⟨y :: ys, ?_⟩
    rw [List.mapM_cons, hy, hys]
    rfl

theorem eventsOf_ok {α : Type} (t : Texts) (session : Session) (type : EventType) (detail : ℕ → α → Detail)
    {items : List α} (a : ℕ) {b : ℕ} (hb : b ≤ items.length) : ∃ events, eventsOf t session type detail items a b = .ok events := by
  refine mapM_ok fun index hi => ?_
  have hindex : index < items.length := by
    have hmem := List.mem_range'_1.1 hi
    omega
  rw [List.getElem?_eq_getElem hindex]
  exact ⟨_, rfl⟩

/-- What was read comes up with its events. -/
theorem candidateEvents_ok (t : Texts) (session : Session) (hr : Read saved) (a : Admission) : ∃ r, candidateEvents t session saved a = .ok r := by
  have hcount : saved.summary.count = .ok saved.summary.state.compactions.length := by
    unfold Summary.count
    rw [hr.count]
  obtain ⟨completions, hcompletions⟩ := eventsOf_ok t session .completion .completion saved.completionEmitted
    hr.known.times.ge
  obtain ⟨compactions, hcompactions⟩ := eventsOf_ok t session .compaction (fun ordinal c => .compaction ordinal c)
    saved.compactionEmitted (le_refl saved.summary.state.compactions.length)
  have hevents : ∃ events, sessionEvents t session saved = .ok events := by
    unfold sessionEvents
    dsimp only
    split
    · rw [hcompletions, hcount]
      refine ⟨completions ++ compactions, ?_⟩
      show (eventsOf t session .compaction _ _ _ _).bind _ = _
      rw [hcompactions]
      rfl
    · exact ⟨[], rfl⟩
  obtain ⟨events, hevents⟩ := hevents
  unfold candidateEvents
  rw [hevents, hcount]
  exact ⟨_, rfl⟩

/-- **What a poll is for**, of a state: it returns, and has checkpointed each session as it was scanned, with its events
in the log; and a session whose transcript is missing at the beginning of it. -/
structure Watched (h : Host) (t : Texts) (p : Poll) (d : Disk) (state : WatchState) : Prop where
  returned : (watchOnce h t p d).2 = none
  sessions : ∃ state', loadState (after h t p d) = some state' ∧ ∀ session ∈ p.config.sessions,
    ∃ saved events saved', scanWatchSession h p.files session (state.saved session.role) = .ok saved ∧
      candidateEvents t session saved (admission p.config.repairPaused session saved.summary.state) =
        .ok (events, saved') ∧
      (∀ e ∈ events, e.eventId ∈ (after h t p d).log.map Event.eventId) ∧
      state'.saved session.role = some saved' ∧
      (p.files session.transcript = none → saved'.offset = 0 ∧ saved'.summary.state = .fresh session.kind)

/-- A session that can be watched: its transcript can be scanned, or does not exist yet. -/
def Watchable (h : Host) (p : Poll) (state : WatchState) (session : Session) : Prop :=
  match p.files session.transcript with
  | none => (Saved.of session (state.saved session.role)).fileIdentity = none
  | some _ => ∃ saved, scanWatchSession h p.files session (state.saved session.role) = .ok saved

/-- **A poll does what it is for if and only if no transcript is missing.** -/
theorem watched_iff {state : WatchState} (hload : loadState (disks h t steps n) = some state) (hq : p.Quiet)
    (hw : ∀ session ∈ p.config.sessions, Watchable h p state session) :
    Watched h t p (disks h t steps n) state ↔
      ∀ session ∈ p.config.sessions, (p.files session.transcript).isSome := by
  obtain ⟨state₁, hload₁, hread⟩ := disks_read h t steps n
  rw [hload] at hload₁
  cases hload₁
  have hold : ∀ role old, state.saved role = some old → Read old := by
    intro role old hsaved
    exact hread _ (saved_mem (m := Memory.begin state (disks h t steps n)) hsaved)
  constructor
  · intro hwatched session hs
    obtain ⟨state₁, m, hload₁, hpoll, -⟩ := watchOnce_ran hwatched.returned
    rw [hload] at hload₁
    cases hload₁
    obtain ⟨m₁, m₂, hsaved, hp⟩ := pollSessions_steps p.config.roles hpoll session hs
    obtain ⟨saved, events, saved', hscan, hc, -⟩ := pollSession_ok hp
    have hcount := (candidateEvents_same hc).2
    cases hfile : p.files session.transcript with
    | some file => rfl
    | none =>
      -- what a missing transcript is scanned from has no count of compactions
      have hyet := hw session hs
      unfold Watchable at hyet
      rw [hfile] at hyet
      dsimp only at hyet
      have hrole : m₁.saved session.role = state.saved session.role := hsaved
      rw [scanWatchSession_missing hfile hscan, hrole] at hcount
      rcases of_cases session (state.saved session.role) with ⟨old, hprevious, heq, -⟩ | heq
      · have hidentity := (hold _ old hprevious).identity
        rw [heq] at hyet
        rw [hyet] at hidentity
        cases hidentity
      · rw [heq] at hcount
        cases hcount
  · intro hall
    have hstep : ∀ session ∈ p.config.sessions, ∀ m : Memory,
        m.saved session.role = (Memory.begin state (disks h t steps n)).saved session.role →
        ∃ m', pollSession h t p m session = .ok m' ∧ ∃ saved events saved',
          scanWatchSession h p.files session (state.saved session.role) = .ok saved ∧
          candidateEvents t session saved (admission p.config.repairPaused session saved.summary.state) =
            .ok (events, saved') ∧ (∀ e ∈ events, e.eventId ∈ m'.known) ∧ m'.saved session.role = some saved' := by
      intro session hs m hm
      obtain ⟨file, hfile⟩ := Option.isSome_iff_exists.1 (hall session hs)
      have hscans := hw session hs
      unfold Watchable at hscans
      rw [hfile] at hscans
      obtain ⟨saved, hscan⟩ := hscans
      have hsavedread : Read saved := scanWatchSession_read hfile (hold session.role) hscan
      obtain ⟨⟨events, saved'⟩, hc⟩ := candidateEvents_ok t session hsavedread
        (admission p.config.repairPaused session saved.summary.state)
      have hp : pollSession h t p m session =
          .ok ((events.foldl (Memory.emit p.notify.isSome) m).checkpoint session.role saved') := by
        unfold pollSession
        rw [hm]
        show (scanWatchSession h p.files session (state.saved session.role)).bind _ = _
        rw [hscan]
        show (candidateEvents t session saved _).bind _ = _
        rw [hc]
        rfl
      refine ⟨_, hp, saved, events, saved', hscan, hc, (known_emits _ events m).1, ?_⟩
      rw [saved_checkpoint, if_pos rfl]
    obtain ⟨m, hpoll, heach⟩ := pollSessions_returns (m := Memory.begin state (disks h t steps n))
      p.config.roles (fun session _ => rfl) hstep
    have hreturned := watchOnce_returns hq hload hpoll
    refine ⟨hreturned, (watchOnce h t p (disks h t steps n)).1.state, ?_⟩
    obtain ⟨state₁, m₁, hload₁, hpoll₁, hafter, hsessions⟩ := watchOnce_ok hreturned
    obtain ⟨state₂, m₂, hload₂, hpoll₂, hknown⟩ := watchOnce_logged hreturned
    rw [hload] at hload₁ hload₂
    cases hload₁
    cases hload₂
    rw [hpoll] at hpoll₁ hpoll₂
    cases hpoll₁
    cases hpoll₂
    refine ⟨hafter, fun session hs => ?_⟩
    obtain ⟨m₁, ⟨saved, events, saved', hscan, hc, hevents, hsaved⟩, heq, hkept⟩ := heach session hs
    refine ⟨saved, events, saved', hscan, hc, fun e he => hknown _ (hkept _ (hevents e he)), ?_, fun hmissing => ?_⟩
    · unfold WatchState.saved
      rw [hsessions]
      rw [← hsaved, ← heq]
      rfl
    · have hthere := hall session hs
      rw [hmissing] at hthere
      cases hthere

namespace Example

/-- Two sessions, of which only the second has a transcript. -/
def partly : Config := ⟨false, none, [coding "coder" "b", coding "reviewer" "a"], by decide, by decide⟩

/-- The transcripts as they are in the end. -/
def whole : Str → Option File := transcript [1, 10, 2, 10, 3, 10]

/-- The first poll, of these sessions. -/
def first (c : Config) : Poll := ⟨c, none, whole⟩

theorem first_quiet (c : Config) : (first c).Quiet := fun queue hq => by cases hq

theorem whole_scans (role : String) : ∃ saved, scanWatchSession host whole (coding role "a") none = .ok saved := by
  have hfile : whole (coding role "a").transcript = some ⟨(1, 1), [1, 10, 2, 10, 3, 10]⟩ := rfl
  rw [scanWatchSession_file hfile fun saved hs => by cases hs]
  have hscan : (scan host [1, 10, 2, 10, 3, 10] (.fresh .codex) 0).isOk = true := by decide +kernel
  cases hr : scan host [1, 10, 2, 10, 3, 10] (.fresh .codex) 0 with
  | error e =>
    rw [hr] at hscan
    cases hscan
  | ok r => exact ⟨_, congrArg (Except.map _) hr⟩

end Example

theorem watched_iff_example :
    Watched Example.host Example.texts (Example.first Example.config) .new ⟨[], [], []⟩ := by
  have hload : loadState (disks Example.host Example.texts Example.growing 0) = some ⟨[], [], []⟩ := rfl
  refine (watched_iff hload (Example.first_quiet _) ?_).2 ?_
  · intro session hs
    rw [List.mem_singleton.1 hs]
    exact Example.whole_scans "coder"
  · intro session hs
    rw [List.mem_singleton.1 hs]
    rfl

/-- The poll of a session whose transcript does not exist yet raises, and no session after it is polled. -/
theorem not_watched : ¬ ∀ (h : Host) (t : Texts) (p : Poll) (steps : ℕ → Step) (n : ℕ) (state : WatchState),
    loadState (disks h t steps n) = some state → p.Quiet →
    (∀ session ∈ p.config.sessions, Watchable h p state session) → Watched h t p (disks h t steps n) state := by
  intro hall
  have hwatched := hall Example.host Example.texts (Example.first Example.partly) Example.growing 0 ⟨[], [], []⟩ rfl
    (Example.first_quiet _) ?_
  · have hraised : (watchOnce Example.host Example.texts (Example.first Example.partly) .new).2 =
        some (.key "compaction_count") := by decide +kernel
    have hreturned := hwatched.returned
    rw [show disks Example.host Example.texts Example.growing 0 = .new from rfl, hraised] at hreturned
    cases hreturned
  · intro session hs
    rcases List.mem_cons.1 hs with rfl | hs
    · rfl
    · rw [List.mem_singleton.1 hs]
      exact Example.whole_scans "reviewer"

end Watch

end Arhugula
