import Arhugula.Spec.Watch
import Arhugula.Proof.TranscriptSafety

/-!
# What a poll of the watch does

A poll takes the sessions one after the other (`pollSession_ok`). What is on disk after any number of its writes is
what was there, or what one of its checkpoints saved (`Keeps`); after a poll that returns it is what is in memory
(`watchOnce_synced`).
-/

namespace Arhugula

namespace Watch

variable {h : Host} {t : Texts} {p : Poll} {d d' : Disk} {m m' : Memory} {session : Session} {saved saved' : Saved}

/-! ## Documents -/

theorem loadState_save (state : WatchState) (log : List Event) :
    loadState ⟨some (Form.watchState.write state), log⟩ = some state := Form.watchState.read_write state

/-! ## Writes -/

/-- Every state that is saved is of this kind. -/
def Saves (P : WatchState → Prop) (writes : List Write) : Prop :=
  ∀ document, Write.save document ∈ writes → ∃ state, document = Form.watchState.write state ∧ P state

/-- The state that is on disk is of this kind. -/
def Holds (P : WatchState → Prop) (d : Disk) : Prop := ∃ state, loadState d = some state ∧ P state

theorem Saves.holds {P : WatchState → Prop} {writes : List Write} (hw : Saves P writes) (hd : Holds P d) :
    Holds P (writes.foldl Disk.write d) := by
  induction writes generalizing d with
  | nil => exact hd
  | cons w writes ih =>
    refine ih (fun document hm => hw document (List.mem_cons_of_mem _ hm)) ?_
    cases w with
    | append e => exact hd
    | save document =>
      obtain ⟨state, rfl, hP⟩ := hw document List.mem_cons_self
      exact ⟨state, loadState_save state d.log, hP⟩

theorem Saves.take {P : WatchState → Prop} {writes : List Write} (hw : Saves P writes) (n : ℕ) :
    Saves P (writes.take n) :=
  fun document hm => hw document (List.mem_of_mem_take hm)

/-! ## Memory -/

/-- What is in memory, and every state that was saved, is of this kind. -/
structure Keeps (P : WatchState → Prop) (m : Memory) : Prop where
  state : P m.state
  saves : Saves P m.writes

/-- A property of the sessions of a state, one by one. -/
def Each (Q : Saved → Prop) (state : WatchState) : Prop := ∀ x ∈ state.sessions, Q x.2

theorem record_state (m : Memory) (e : Event) : (m.record e).state = m.state := by
  unfold Memory.record
  split <;> rfl

theorem record_writes (m : Memory) (e : Event) :
    (m.record e).writes = m.writes ∨ (m.record e).writes = m.writes ++ [.append e] := by
  unfold Memory.record
  split
  · exact .inl rfl
  · exact .inr rfl

theorem remind_sessions (notify : Bool) (m : Memory) (id : Str) :
    (m.remind notify id).state.sessions = m.state.sessions ∧ (m.remind notify id).writes = m.writes := by
  unfold Memory.remind
  split <;> exact ⟨rfl, rfl⟩

theorem emit_sessions (notify : Bool) (m : Memory) (e : Event) :
    (m.emit notify e).state.sessions = m.state.sessions := by
  unfold Memory.emit
  rw [(remind_sessions _ _ _).1, record_state]

theorem emit_writes (notify : Bool) (m : Memory) (e : Event) :
    (m.emit notify e).writes = m.writes ∨ (m.emit notify e).writes = m.writes ++ [.append e] := by
  unfold Memory.emit
  rw [(remind_sessions _ _ _).2]
  exact record_writes m e

theorem Keeps.emit {Q : Saved → Prop} (hm : Keeps (Each Q) m) (notify : Bool) (e : Event) :
    Keeps (Each Q) (m.emit notify e) := by
  refine ⟨?_, fun document hmem => ?_⟩
  · unfold Each
    rw [emit_sessions]
    exact hm.state
  · rcases emit_writes notify m e with heq | heq
    · exact hm.saves document (heq ▸ hmem)
    · rw [heq, List.mem_append] at hmem
      rcases hmem with hmem | hmem
      · exact hm.saves document hmem
      · simp at hmem

theorem Keeps.emits {Q : Saved → Prop} (notify : Bool) (events : List Event) (hm : Keeps (Each Q) m) :
    Keeps (Each Q) (events.foldl (Memory.emit notify) m) := by
  induction events generalizing m with
  | nil => exact hm
  | cons e events ih => exact ih (hm.emit notify e)

theorem emits_sessions (notify : Bool) (events : List Event) (m : Memory) :
    (events.foldl (Memory.emit notify) m).state.sessions = m.state.sessions := by
  induction events generalizing m with
  | nil => rfl
  | cons e events ih => rw [List.foldl_cons, ih, emit_sessions]

theorem Keeps.save {P : WatchState → Prop} {state : WatchState} (hm : Keeps P m) (hs : P state) :
    Keeps P (m.save state) := by
  refine ⟨hs, fun document hmem => ?_⟩
  rcases List.mem_append.1 hmem with hmem | hmem
  · exact hm.saves document hmem
  · rw [List.mem_singleton] at hmem
    cases hmem
    exact ⟨state, rfl, hs⟩

theorem Keeps.checkpoint {Q : Saved → Prop} (hm : Keeps (Each Q) m) (hq : Q saved) (role : Str) :
    Keeps (Each Q) (m.checkpoint role saved) := by
  refine hm.save fun x hx => ?_
  rcases List.mem_cons.1 hx with rfl | hx
  · exact hq
  · exact hm.state x (List.mem_of_mem_filter hx)

/-- What is known of a role after a checkpoint. -/
theorem saved_checkpoint (m : Memory) (role role' : Str) (saved : Saved) :
    (m.checkpoint role saved).saved role' = if role = role' then some saved else m.saved role' := by
  unfold Memory.checkpoint Memory.save Memory.saved WatchState.saved
  dsimp only
  rw [List.find?_cons]
  by_cases hr : role = role'
  · simp [hr]
  · have hfind : (m.state.sessions.filter fun x => x.1 ≠ role).find? (fun x => x.1 = role') =
        m.state.sessions.find? fun x => x.1 = role' := by
      rw [List.find?_filter]
      congr 1
      funext x
      by_cases hx : x.1 = role'
      · simp [hx, Ne.symm hr]
      · simp [hx]
    simp only [hr, decide_false, if_false, hfind]

theorem saved_emits (notify : Bool) (events : List Event) (m : Memory) (role : Str) :
    (events.foldl (Memory.emit notify) m).saved role = m.saved role := by
  unfold Memory.saved WatchState.saved
  rw [emits_sessions]

theorem saved_mem {role : Str} (hs : m.saved role = some saved) : (role, saved) ∈ m.state.sessions := by
  unfold Memory.saved WatchState.saved at hs
  obtain ⟨x, hx, rfl⟩ := Option.map_eq_some_iff.1 hs
  have hrole := List.find?_some hx
  rw [decide_eq_true_eq] at hrole
  rw [← hrole]
  exact List.mem_of_find?_eq_some hx

/-! ## A session -/

/-- What was saved of a session after it was scanned, its events apart. -/
structure SameScan (s s' : Saved) : Prop where
  kind : s'.kind = s.kind
  sessionId : s'.sessionId = s.sessionId
  transcript : s'.transcript = s.transcript
  offset : s'.offset = s.offset
  summary : s'.summary = s.summary
  fileIdentity : s'.fileIdentity = s.fileIdentity

theorem admissionEvents_same (t : Texts) (session : Session) (saved : Saved) (a : Admission) :
    SameScan saved (admissionEvents t session saved a).2 := by
  unfold admissionEvents
  split <;> exact ⟨rfl, rfl, rfl, rfl, rfl, rfl⟩

theorem candidateEvents_same {a : Admission} {events : List Event}
    (hc : candidateEvents t session saved a = .ok (events, saved')) :
    SameScan saved saved' ∧ saved.summary.compactionCount.isSome := by
  unfold candidateEvents at hc
  obtain ⟨_, -, hc⟩ := bind_ok hc
  obtain ⟨count, hcount, hc⟩ := bind_ok hc
  cases hc
  refine ⟨?_, ?_⟩
  · have hsame := admissionEvents_same t session
      { saved with completionEmitted := saved.summary.state.completionCount, compactionEmitted := count } a
    exact ⟨hsame.kind, hsame.sessionId, hsame.transcript, hsame.offset, hsame.summary, hsame.fileIdentity⟩
  · unfold Summary.count at hcount
    split at hcount
    · rename_i n hn
      rw [hn]
      rfl
    · cases hcount

/-- **What a session's poll does** where it raises nothing. -/
theorem pollSession_ok (hp : pollSession h t p m session = .ok m') :
    ∃ saved events saved', scanWatchSession h p.files session (m.saved session.role) = .ok saved ∧
      candidateEvents t session saved (admission p.config.repairPaused session saved.summary.state) =
        .ok (events, saved') ∧
      m' = (events.foldl (Memory.emit p.notify.isSome) m).checkpoint session.role saved' := by
  unfold pollSession at hp
  obtain ⟨saved, hscan, hp⟩ := bind_ok hp
  obtain ⟨⟨events, saved'⟩, hc, hp⟩ := bind_ok hp
  cases hp
  exact ⟨saved, events, saved', hscan, hc, rfl⟩

/-! ## A poll -/

/-- The disk holds what is in memory, once the writes are made. -/
def Synced (d : Disk) (m : Memory) : Prop := loadState (m.writes.foldl Disk.write d) = some m.state

theorem synced_save (d : Disk) (m : Memory) (state : WatchState) : Synced d (m.save state) := by
  unfold Synced Memory.save
  dsimp only
  rw [List.foldl_append]
  exact loadState_save state _

theorem pollSessions_synced {sessions : List Session} (hp : pollSessions h t p m sessions = (m', none))
    (hs : Synced d m ∨ sessions ≠ []) : Synced d m' := by
  induction sessions generalizing m with
  | nil =>
    cases hp
    rcases hs with hs | hs
    · exact hs
    · exact absurd rfl hs
  | cons session sessions ih =>
    unfold pollSessions at hp
    split at hp
    · cases hp
    · rename_i m₁ hm₁
      obtain ⟨_, _, _, -, -, rfl⟩ := pollSession_ok hm₁
      exact ih hp (.inl (synced_save d _ _))

theorem deliver_sessions (queue : Str → Bool) (m : Memory) (ids : List Str) :
    (deliver queue m ids).1.state.sessions = m.state.sessions := by
  induction ids generalizing m with
  | nil => rfl
  | cons id ids ih =>
    unfold deliver
    split
    · rw [ih]
      rfl
    · rfl

theorem deliver_synced {queue : Str → Bool} {ids : List Str} (hs : Synced d m) : Synced d (deliver queue m ids).1 := by
  induction ids generalizing m with
  | nil => exact hs
  | cons id ids ih =>
    unfold deliver
    split
    · exact ih (synced_save d _ _)
    · exact hs

theorem Keeps.deliver {Q : Saved → Prop} {queue : Str → Bool} {ids : List Str} (hm : Keeps (Each Q) m) :
    Keeps (Each Q) (deliver queue m ids).1 := by
  induction ids generalizing m with
  | nil => exact hm
  | cons id ids ih =>
    unfold Watch.deliver
    split
    · exact ih (hm.save hm.state)
    · exact hm

theorem Keeps.pollSessions {Q : Saved → Prop} {sessions : List Session} (hm : Keeps (Each Q) m)
    (hstep : ∀ session ∈ sessions, ∀ m m', Keeps (Each Q) m → pollSession h t p m session = .ok m' →
      Keeps (Each Q) m') : Keeps (Each Q) (pollSessions h t p m sessions).1 := by
  induction sessions generalizing m with
  | nil => exact hm
  | cons session sessions ih =>
    unfold Watch.pollSessions
    split
    · exact hm
    · rename_i m₁ hm₁
      exact ih (hstep session List.mem_cons_self m m₁ hm hm₁) fun s hs => hstep s (List.mem_cons_of_mem _ hs)

/-- What a poll begins with. -/
def Memory.begin (state : WatchState) (d : Disk) : Memory := ⟨state, d.log.map Event.eventId, [], []⟩

/-- **A rule for polls**: what is known of every session that is on disk, and is kept by each session's poll, is known
of every session that is on disk after any of the writes. -/
theorem watchOnce_keeps {Q : Saved → Prop} (hd : Holds (Each Q) d)
    (hstep : ∀ session ∈ p.config.sessions, ∀ m m', Keeps (Each Q) m → pollSession h t p m session = .ok m' →
      Keeps (Each Q) m') : Keeps (Each Q) (watchOnce h t p d).1 := by
  obtain ⟨state, hload, hQ⟩ := hd
  have hbegin : Keeps (Each Q) (Memory.begin state d) := ⟨hQ, fun document hm => by cases hm⟩
  unfold watchOnce
  rw [hload]
  dsimp only
  split
  · exact hbegin
  · have hpoll := hbegin.pollSessions hstep
    unfold Memory.begin at hpoll
    split
    · rename_i m₁ e heq
      rw [heq] at hpoll
      exact hpoll
    · rename_i m₁ heq
      rw [heq] at hpoll
      split
      · exact hpoll
      · split
        · exact hpoll
        · exact hpoll.deliver

theorem Keeps.crashed {Q : Saved → Prop} (hd : Holds (Each Q) d) (hm : Keeps (Each Q) (watchOnce h t p d).1) (n : ℕ) :
    Holds (Each Q) (crashed h t p d n) := (hm.saves.take n).holds hd

theorem Keeps.after {Q : Saved → Prop} (hd : Holds (Each Q) d) (hm : Keeps (Each Q) (watchOnce h t p d).1) :
    Holds (Each Q) (after h t p d) := hm.saves.holds hd

/-- What a poll does, once the state is loaded. -/
theorem watchOnce_eq {state : WatchState} (hload : loadState d = some state) : watchOnce h t p d =
    if p.notify.isSome && p.config.notificationThread.isNone then (Memory.begin state d, some .thread)
    else match pollSessions h t p (Memory.begin state d) p.config.sessions with
      | (m, some e) => (m, some e)
      | (m, none) => match p.notify with
        | none => (m, none)
        | some queue =>
          if p.config.repairPaused then (m, none) else deliver queue m m.state.pendingNotifications := by
  unfold watchOnce
  rw [hload]
  rfl

/-- **A poll that returns**: it polled every session, and only delivered notifications then. -/
theorem watchOnce_ran (ho : (watchOnce h t p d).2 = none) :
    ∃ state m, loadState d = some state ∧ pollSessions h t p (Memory.begin state d) p.config.sessions = (m, none) ∧
      ((watchOnce h t p d).1 = m ∨
        ∃ queue, (watchOnce h t p d).1 = (deliver queue m m.state.pendingNotifications).1) := by
  cases hload : loadState d with
  | none =>
    unfold watchOnce at ho
    rw [hload] at ho
    cases ho
  | some state =>
    have hresult := watchOnce_eq (h := h) (t := t) (p := p) hload
    have hthread : (p.notify.isSome && p.config.notificationThread.isNone) ≠ true := by
      intro hthread
      rw [hresult, if_pos hthread] at ho
      cases ho
    rw [if_neg hthread] at hresult
    rw [hresult] at ho ⊢
    cases hpoll : pollSessions h t p (Memory.begin state d) p.config.sessions with
    | mk m e =>
      rw [hpoll] at ho
      cases e with
      | some e => cases ho
      | none =>
        refine ⟨state, m, rfl, hpoll, ?_⟩
        dsimp only
        split
        · exact .inl rfl
        · split
          · exact .inl rfl
          · exact .inr ⟨_, rfl⟩

theorem watchOnce_ok (ho : (watchOnce h t p d).2 = none) :
    ∃ state m, loadState d = some state ∧ pollSessions h t p (Memory.begin state d) p.config.sessions = (m, none) ∧
      loadState (after h t p d) = some (watchOnce h t p d).1.state ∧
      (watchOnce h t p d).1.state.sessions = m.state.sessions := by
  obtain ⟨state, m, hload, hpoll, hrest⟩ := watchOnce_ran ho
  have hsynced : Synced d m := pollSessions_synced hpoll (.inr p.config.nonempty)
  refine ⟨state, m, hload, hpoll, ?_⟩
  unfold after
  rcases hrest with heq | ⟨queue, heq⟩
  · rw [heq]
    exact ⟨hsynced, rfl⟩
  · rw [heq]
    exact ⟨deliver_synced hsynced, deliver_sessions _ _ _⟩

/-- What a poll of other roles leaves. -/
theorem pollSessions_other {sessions : List Session} {role : Str} (hr : role ∉ sessions.map Session.role)
    (hp : pollSessions h t p m sessions = (m', none)) : m'.saved role = m.saved role := by
  induction sessions generalizing m with
  | nil =>
    cases hp
    rfl
  | cons session sessions ih =>
    unfold pollSessions at hp
    split at hp
    · cases hp
    · rename_i m₁ hm₁
      rw [List.map_cons, List.mem_cons, not_or] at hr
      rw [ih hr.2 hp]
      obtain ⟨_, _, _, -, -, rfl⟩ := pollSession_ok hm₁
      rw [saved_checkpoint, if_neg (Ne.symm hr.1), saved_emits]

/-- Each session's poll begins with what was saved of its role. -/
theorem pollSessions_steps {sessions : List Session} (hnodup : (sessions.map Session.role).Nodup)
    (hp : pollSessions h t p m sessions = (m', none)) : ∀ session ∈ sessions, ∃ m₁ m₂,
      m₁.saved session.role = m.saved session.role ∧ pollSession h t p m₁ session = .ok m₂ := by
  induction sessions generalizing m with
  | nil =>
    intro session hs
    cases hs
  | cons first sessions ih =>
    unfold pollSessions at hp
    split at hp
    · cases hp
    · rename_i m₁ hm₁
      rw [List.map_cons, List.nodup_cons] at hnodup
      intro session hs
      rcases List.mem_cons.1 hs with rfl | hs
      · exact ⟨m, m₁, rfl, hm₁⟩
      · obtain ⟨m₂, m₃, hsaved, hpoll⟩ := ih hnodup.2 hp session hs
        refine ⟨m₂, m₃, ?_, hpoll⟩
        obtain ⟨_, events, saved', -, -, rfl⟩ := pollSession_ok hm₁
        have hne : first.role ≠ session.role := fun heq => hnodup.1 (heq ▸ List.mem_map_of_mem hs)
        rw [hsaved, saved_checkpoint, if_neg hne, saved_emits]

/-- **What is known of each session after a poll that returns**, from what its own poll leaves. -/
theorem pollSessions_each {sessions : List Session} {I : Memory → Prop} {Q : Session → Saved → Prop}
    (hnodup : (sessions.map Session.role).Nodup) (hI : I m) (hp : pollSessions h t p m sessions = (m', none))
    (hstep : ∀ session ∈ sessions, ∀ m m', I m → pollSession h t p m session = .ok m' →
      I m' ∧ ∃ saved, m'.saved session.role = some saved ∧ Q session saved) :
    ∀ session ∈ sessions, ∃ saved, m'.saved session.role = some saved ∧ Q session saved := by
  induction sessions generalizing m with
  | nil =>
    intro session hs
    cases hs
  | cons first sessions ih =>
    unfold pollSessions at hp
    split at hp
    · cases hp
    · rename_i m₁ hm₁
      obtain ⟨hI₁, saved, hsaved, hQ⟩ := hstep first List.mem_cons_self m m₁ hI hm₁
      rw [List.map_cons, List.nodup_cons] at hnodup
      intro session hs
      rcases List.mem_cons.1 hs with rfl | hs
      · refine ⟨saved, ?_, hQ⟩
        rw [pollSessions_other hnodup.1 hp]
        exact hsaved
      · exact ih hnodup.2 hI₁ hp (fun s hm => hstep s (List.mem_cons_of_mem _ hm)) session hs

/-! ## The log -/

/-- The ids that are known are those in the log. -/
def Logged (d : Disk) (m : Memory) : Prop :=
  ∀ id, id ∈ m.known ↔ id ∈ (m.writes.foldl Disk.write d).log.map Event.eventId

theorem logged_begin (state : WatchState) (d : Disk) : Logged d (Memory.begin state d) := fun _ => Iff.rfl

theorem Logged.record (hl : Logged d m) (e : Event) : Logged d (m.record e) := by
  unfold Memory.record
  split
  · exact hl
  · intro id
    show id ∈ e.eventId :: m.known ↔ id ∈ ((m.writes ++ [Write.append e]).foldl Disk.write d).log.map Event.eventId
    rw [List.foldl_append]
    show _ ↔ id ∈ ((m.writes.foldl Disk.write d).log ++ [e]).map Event.eventId
    rw [List.map_append, List.mem_append, ← hl id, List.mem_cons, List.map_singleton, List.mem_singleton, or_comm]

theorem remind_known (notify : Bool) (m : Memory) (id : Str) : (m.remind notify id).known = m.known := by
  unfold Memory.remind
  split <;> rfl

theorem Logged.emit (hl : Logged d m) (notify : Bool) (e : Event) : Logged d (m.emit notify e) := by
  intro id
  unfold Memory.emit
  rw [remind_known, (remind_sessions _ _ _).2]
  exact hl.record e id

theorem Logged.save (hl : Logged d m) (state : WatchState) : Logged d (m.save state) := by
  intro id
  show id ∈ m.known ↔ id ∈ ((m.writes ++ [Write.save _]).foldl Disk.write d).log.map Event.eventId
  rw [List.foldl_append]
  exact hl id

theorem Logged.emits {notify : Bool} {events : List Event} (hl : Logged d m) :
    Logged d (events.foldl (Memory.emit notify) m) := by
  induction events generalizing m with
  | nil => exact hl
  | cons e events ih => exact ih (hl.emit notify e)

theorem known_emit (notify : Bool) (m : Memory) (e : Event) :
    e.eventId ∈ (m.emit notify e).known ∧ ∀ id ∈ m.known, id ∈ (m.emit notify e).known := by
  unfold Memory.emit
  rw [remind_known]
  unfold Memory.record
  by_cases hk : m.known.contains e.eventId = true
  · rw [if_pos hk]
    exact ⟨List.contains_iff_mem.1 hk, fun id hid => hid⟩
  · rw [if_neg hk]
    exact ⟨List.mem_cons_self, fun id hid => List.mem_cons_of_mem _ hid⟩

/-- Every event that a session comes up with is known afterwards. -/
theorem known_emits (notify : Bool) (events : List Event) (m : Memory) :
    (∀ e ∈ events, e.eventId ∈ (events.foldl (Memory.emit notify) m).known) ∧
      ∀ id ∈ m.known, id ∈ (events.foldl (Memory.emit notify) m).known := by
  induction events generalizing m with
  | nil => exact ⟨fun e he => (by cases he), fun id hid => hid⟩
  | cons e events ih =>
    obtain ⟨hall, hkeep⟩ := ih (m.emit notify e)
    obtain ⟨he, hold⟩ := known_emit notify m e
    refine ⟨fun x hx => ?_, fun id hid => hkeep id (hold id hid)⟩
    rcases List.mem_cons.1 hx with rfl | hx
    · exact hkeep _ he
    · exact hall x hx

theorem deliver_known (queue : Str → Bool) (m : Memory) (ids : List Str) : (deliver queue m ids).1.known = m.known := by
  induction ids generalizing m with
  | nil => rfl
  | cons id ids ih =>
    unfold deliver
    split
    · rw [ih]
      rfl
    · rfl

theorem deliver_logged {queue : Str → Bool} {ids : List Str} (hl : Logged d m) : Logged d (deliver queue m ids).1 := by
  induction ids generalizing m with
  | nil => exact hl
  | cons id ids ih =>
    unfold deliver
    split
    · exact ih (hl.save _)
    · exact hl

theorem pollSession_known (hp : pollSession h t p m session = .ok m') : ∀ id ∈ m.known, id ∈ m'.known := by
  obtain ⟨_, events, _, -, -, rfl⟩ := pollSession_ok hp
  exact (known_emits _ events m).2

theorem pollSession_logged (hp : pollSession h t p m session = .ok m') (hl : Logged d m) : Logged d m' := by
  obtain ⟨_, events, _, -, -, rfl⟩ := pollSession_ok hp
  exact (Logged.emits hl).save _

theorem pollSessions_known (sessions : List Session) (m : Memory) :
    ∀ id ∈ m.known, id ∈ (pollSessions h t p m sessions).1.known := by
  induction sessions generalizing m with
  | nil => exact fun id hid => hid
  | cons session sessions ih =>
    unfold pollSessions
    split
    · exact fun id hid => hid
    · rename_i m₁ hm₁
      exact fun id hid => ih m₁ id (pollSession_known hm₁ id hid)

theorem pollSessions_logged (sessions : List Session) (hl : Logged d m) :
    Logged d (pollSessions h t p m sessions).1 := by
  induction sessions generalizing m with
  | nil => exact hl
  | cons session sessions ih =>
    unfold pollSessions
    split
    · exact hl
    · rename_i m₁ hm₁
      exact ih (pollSession_logged hm₁ hl)

/-- **After a poll that returns** the ids that it knew are those in the log. -/
theorem watchOnce_logged (ho : (watchOnce h t p d).2 = none) :
    ∃ state m, loadState d = some state ∧ pollSessions h t p (Memory.begin state d) p.config.sessions = (m, none) ∧
      ∀ id ∈ m.known, id ∈ (after h t p d).log.map Event.eventId := by
  obtain ⟨state, m, hload, hpoll, hrest⟩ := watchOnce_ran ho
  have hlogged : Logged d m := by
    have hall := pollSessions_logged (h := h) (t := t) (p := p) p.config.sessions (logged_begin state d)
    rwa [hpoll] at hall
  refine ⟨state, m, hload, hpoll, fun id hid => ?_⟩
  unfold after
  rcases hrest with heq | ⟨queue, heq⟩
  · rw [heq]
    exact (hlogged id).1 hid
  · rw [heq]
    refine (deliver_logged hlogged id).1 ?_
    rw [deliver_known]
    exact hid

/-! ## Polls that return -/

/-- The queue takes every notification, where notifications are wanted. -/
def Poll.Quiet (p : Poll) : Prop :=
  ∀ queue, p.notify = some queue → p.config.notificationThread.isSome ∧ ∀ id, queue id = true

theorem deliver_quiet {queue : Str → Bool} (hq : ∀ id, queue id = true) (m : Memory) (ids : List Str) :
    (deliver queue m ids).2 = none := by
  induction ids generalizing m with
  | nil => rfl
  | cons id ids ih =>
    unfold deliver
    rw [if_pos (hq id)]
    exact ih _

theorem watchOnce_returns {state : WatchState} (hq : p.Quiet) (hload : loadState d = some state)
    (hpoll : pollSessions h t p (Memory.begin state d) p.config.sessions = (m, none)) :
    (watchOnce h t p d).2 = none := by
  rw [watchOnce_eq hload, hpoll]
  cases hn : p.notify with
  | none => rfl
  | some queue =>
    obtain ⟨hthread, htakes⟩ := hq queue hn
    have hsome : (Option.isSome (some queue) && p.config.notificationThread.isNone) ≠ true := by
      cases hthread' : p.config.notificationThread with
      | none =>
        rw [hthread'] at hthread
        cases hthread
      | some thread => simp
    rw [if_neg hsome]
    dsimp only
    split
    · rfl
    · exact deliver_quiet htakes _ _

/-- **Each session's poll returns, so all do**, where it depends on what was saved of its role only. -/
theorem pollSessions_returns {sessions : List Session} {m₀ : Memory} {Q : Session → Memory → Prop}
    (hnodup : (sessions.map Session.role).Nodup) (hm : ∀ session ∈ sessions, m.saved session.role = m₀.saved session.role)
    (hstep : ∀ session ∈ sessions, ∀ m, m.saved session.role = m₀.saved session.role →
      ∃ m', pollSession h t p m session = .ok m' ∧ Q session m') :
    ∃ m', pollSessions h t p m sessions = (m', none) ∧ ∀ session ∈ sessions, ∃ m₁, Q session m₁ ∧
      m'.saved session.role = m₁.saved session.role ∧ ∀ id ∈ m₁.known, id ∈ m'.known := by
  induction sessions generalizing m with
  | nil => exact ⟨m, rfl, fun session hs => by cases hs⟩
  | cons first sessions ih =>
    rw [List.map_cons, List.nodup_cons] at hnodup
    obtain ⟨m₁, hp, hQ⟩ := hstep first List.mem_cons_self m (hm first List.mem_cons_self)
    have hother : ∀ session ∈ sessions, m₁.saved session.role = m₀.saved session.role := by
      intro session hs
      obtain ⟨_, events, saved', -, -, rfl⟩ := pollSession_ok hp
      have hne : first.role ≠ session.role := fun heq => hnodup.1 (heq ▸ List.mem_map_of_mem hs)
      rw [saved_checkpoint, if_neg hne, saved_emits]
      exact hm session (List.mem_cons_of_mem _ hs)
    obtain ⟨m', hrest, heach⟩ := ih hnodup.2 hother fun s hs => hstep s (List.mem_cons_of_mem _ hs)
    have hall : pollSessions h t p m (first :: sessions) = (m', none) := by
      unfold pollSessions
      rw [hp]
      exact hrest
    refine ⟨m', hall, fun session hs => ?_⟩
    rcases List.mem_cons.1 hs with rfl | hs
    · refine ⟨m₁, hQ, pollSessions_other hnodup.1 hrest, ?_⟩
      have hkeep := pollSessions_known (h := h) (t := t) (p := p) sessions m₁
      rwa [hrest] at hkeep
    · exact heach session hs

end Watch

end Arhugula
