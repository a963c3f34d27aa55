import Arhugula.Proof.GatewayAttempt

/-!
# The clock of a gateway call

A call has the readings of the clock that the log shows while it is active (`readings`), and the budget that it began
with (`allotted`). `Core` says that the active call knows its last reading and its deadline, that a wish to cancel it
is known to it, and that a success was stored, or the local route taken, only while the call was `Due`. What changes
the client keeps `Core`; only an answer of the clock has to be taken before it holds again (`Core.told`).
-/

namespace Arhugula

namespace Gateway

namespace Deadline

open Reentrant Providers

variable {digest : Manifest → String} {codec : Codec} {log : List (GEntry digest)} {e : GEntry digest}
  {s s' : Sys digest} {id : String} {c c' : Call} {i : ℕ}

/-! ## What a log shows of a call -/

/-- The call is active. -/
def during (id : String) (s : Sys digest) : Bool := s.client.active.any fun c => c.request.requestId = id

/-- An answer of the clock that failed, or went back. -/
def misread (last : Option ℤ) : Answer → Bool
  | .time now => now < 0 || last.any fun t => now < t
  | .raised .interrupt => false
  | _ => true

/-- **The readings of the clock for a call**, newest first. -/
def readings (id : String) : List (GEntry digest) → List ℤ
  | [] => []
  | e :: older =>
    match e.act with
    | .reply .clock (.time now) =>
      if during id e.st && !misread (readings id older).head? (.time now) then now :: readings id older
      else readings id older
    | _ => readings id older

/-- **A reading for the call failed**, or went back. -/
def fails (id : String) : List (GEntry digest) → Bool
  | [] => false
  | e :: older =>
    fails id older || match e.act with
      | .reply .clock a => during id e.st && misread (readings id older).head? a
      | _ => false

/-- The budget that the call began with. -/
def allotted (id : String) : List (GEntry digest) → Option ℤ
  | [] => none
  | e :: older => (allotted id older).or ((e.st.client.active.filter fun c => c.request.requestId = id).map
      fun c => c.request.budgetMs)

/-- The end of the call was asked for. -/
def Canceled (id : String) (log : List (GEntry digest)) : Prop :=
  ∃ e ∈ log, Requests e ∧ during id e.st = true ∨
    ∃ c, e.st.client.active = some c ∧ c.request.requestId = id ∧ c.cancelRequested = true

/-- **The `start` that began the call** asked for this budget: the call is active right after it, and not before. -/
def Asked (codec : Codec) (id : String) (budget : ℤ) (log : List (GEntry digest)) : Prop :=
  ∃ newer : List (GEntry digest), ∃ e : GEntry digest, ∃ older given raw read, log = newer ++ e :: older ∧
    e.act = .invoke (.start (some given)) ∧ requestBytes codec (some given) = .ok raw ∧
    parseRequest codec (some raw) = .ok read ∧ read.requestId = id ∧
    read.budgetMs = budget ∧ (∀ m ∈ e :: older, during id m.st = false) ∧
    ∀ m ∈ newer.getLast?, during id m.st = true

/-- **The call is in time**: no reading is at its deadline or past it, no reading failed, and nobody asked for its
end. -/
structure Due (codec : Codec) (id : String) (log : List (GEntry digest)) : Prop where
  timely : ∃ budget first, allotted id log = some budget ∧ Asked codec id budget log ∧
    (readings id log).getLast? = some first ∧ ∀ t ∈ readings id log, t < first + budget
  wanted : ¬ Canceled id log
  clean : ¬ Disturbed log → fails id log = false

/-! ### Entries -/

theorem during_iff : during id s = true ↔ ∃ c, s.client.active = some c ∧ c.request.requestId = id := by
  unfold during
  rw [Option.any_eq_true]
  exact exists_congr fun c => and_congr_right fun _ => decide_eq_true_iff

theorem during_active (h : s.client.active = some c) : during c.request.requestId s = true :=
  during_iff.2 ⟨c, h, rfl⟩

/-- Readings do not go back. -/
theorem readings_sorted (id : String) (log : List (GEntry digest)) : (readings id log).Pairwise fun t u => u ≤ t := by
  induction log with
  | nil => exact .nil
  | cons e log ih =>
    unfold readings
    split
    · split
      · rename_i now _ hgood
        simp only [misread, Bool.and_eq_true, Bool.not_eq_true', Bool.or_eq_false_iff] at hgood
        refine List.pairwise_cons.2 ⟨fun u hu => ?_, ih⟩
        -- the last reading is the greatest so far
        cases hlast : readings id log with
        | nil =>
          rw [hlast] at hu
          cases hu
        | cons t rest =>
          rw [hlast] at hu ih hgood
          have hle : ¬ now < t := of_decide_eq_false hgood.2.2
          rcases List.mem_cons.1 hu with rfl | hu
          · omega
          · have hut := (List.pairwise_cons.1 ih).1 u hu
            omega
      · exact ih
    · exact ih

/-- An entry that is no reading. -/
theorem readings_other (h : ∀ now, e.act = .reply .clock (.time now) → during id e.st = true →
    misread (readings id log).head? (.time now) = true) : readings id (e :: log) = readings id log := by
  rw [readings]
  split
  · rename_i now hact
    by_cases hd : during id e.st = true
    · rw [h now hact hd, Bool.not_true, Bool.and_false]
      rfl
    · rw [show during id e.st = false by simpa using hd]
      rfl
  · rfl

theorem fails_other (h : during id e.st = false) : fails id (e :: log) = fails id log := by
  rw [fails]
  split
  · rw [h, Bool.false_and, Bool.or_false]
  · rw [Bool.or_false]

theorem fails_silent (h : ∀ a, e.act ≠ .reply .clock a) : fails id (e :: log) = fails id log := by
  rw [fails]
  split
  · rename_i a hact
    exact absurd hact (h a)
  · rw [Bool.or_false]

theorem allotted_other (h : during id e.st = false) : allotted id (e :: log) = allotted id log := by
  have hnone : (e.st.client.active.filter fun c => c.request.requestId = id) = none := by
    cases hactive : e.st.client.active with
    | none => rfl
    | some c =>
      simp only [during, hactive, Option.any_some, decide_eq_false_iff_not] at h
      rw [Option.filter_some, if_neg (by simpa using h)]
  rw [allotted, hnone]
  exact Option.or_none

theorem allotted_some {budget : ℤ} (h : allotted id log = some budget) : allotted id (e :: log) = some budget := by
  rw [allotted, h]
  rfl

/-- The budget stays what it was. -/
theorem allotted_append {budget : ℤ} (newer : List (GEntry digest)) (h : allotted id log = some budget) :
    allotted id (newer ++ log) = some budget := by
  induction newer with
  | nil => exact h
  | cons e newer ih => exact allotted_some ih

/-- A call without a budget was not seen yet. -/
theorem allotted_none (h : allotted id log = none) : readings id log = [] := by
  induction log with
  | nil => rfl
  | cons e log ih =>
    rw [allotted, Option.or_eq_none_iff, Option.map_eq_none_iff] at h
    have hd : during id e.st = false := by
      cases hactive : e.st.client.active with
      | none => simp [during, hactive]
      | some c =>
        have hfilter := h.2
        rw [hactive, Option.filter_some] at hfilter
        simp only [during, hactive, Option.any_some]
        split at hfilter
        · cases hfilter
        · rename_i hne
          simpa using hne
    rw [readings_other fun now _ hd' => by rw [hd] at hd'; cases hd']
    exact ih h.1

/-- A call that was never active. -/
theorem unseen (h : ∀ e ∈ log, during id e.st = false) :
    readings id log = [] ∧ fails id log = false ∧ allotted id log = none ∧ ¬ Canceled id log := by
  have hnot : ¬ Canceled id log := by
    rintro ⟨e, he, ⟨-, hd⟩ | ⟨c, hc, hid, -⟩⟩
    · rw [h e he] at hd
      cases hd
    · have hd := during_active hc
      rw [hid, h e he] at hd
      cases hd
  refine ⟨?_, ?_, ?_, hnot⟩
  · induction log with
    | nil => rfl
    | cons e log ih =>
      rw [readings_other fun now _ hd => by rw [h e List.mem_cons_self] at hd; cases hd]
      exact ih (fun e' he' => h e' (List.mem_cons_of_mem _ he'))
        fun ⟨m, hm, hx⟩ => hnot ⟨m, List.mem_cons_of_mem _ hm, hx⟩
  · clear hnot
    induction log with
    | nil => rfl
    | cons e log ih =>
      rw [fails_other (h e List.mem_cons_self)]
      exact ih fun e' he' => h e' (List.mem_cons_of_mem _ he')
  · clear hnot
    induction log with
    | nil => rfl
    | cons e log ih =>
      rw [allotted_other (h e List.mem_cons_self)]
      exact ih fun e' he' => h e' (List.mem_cons_of_mem _ he')

theorem Asked.cons {budget : ℤ} (h : Asked codec id budget log) (hd : during id e.st = true ∨ readings id log ≠ []) :
    Asked codec id budget (e :: log) := by
  obtain ⟨newer, m, older, given, raw, read, hlog, hact, hraw, hread, hid, hbudget, hnot, hnext⟩ := h
  refine ⟨e :: newer, m, older, given, raw, read, by rw [hlog, List.cons_append], hact, hraw, hread, hid, hbudget, hnot, ?_⟩
  cases newer with
  | nil =>
    intro m' hm'
    obtain rfl : e = m' := Option.some_inj.1 hm'
    rcases hd with hd | hne
    · exact hd
    · rw [hlog] at hne
      exact absurd (unseen hnot).1 hne
  | cons m' newer =>
    rw [List.getLast?_cons_cons]
    exact hnext

theorem Disturbed.cons (h : Disturbed log) : Disturbed (e :: log) := by
  obtain ⟨m, hm, hx⟩ := h
  exact ⟨m, List.mem_cons_of_mem _ hm, hx⟩

/-- An entry adds a reading, or none. -/
theorem readings_cons (id : String) (e : GEntry digest) (log : List (GEntry digest)) :
    readings id (e :: log) = readings id log ∨
      ∃ now, readings id (e :: log) = now :: readings id log ∧ during id e.st = true := by
  rw [readings]
  split
  · rename_i now hact
    split
    · rename_i hgood
      rw [Bool.and_eq_true] at hgood
      exact .inr ⟨now, rfl, hgood.1⟩
    · exact .inl rfl
  · exact .inl rfl

/-- The first reading stays what it was. -/
theorem first_append {first : ℤ} (newer : List (GEntry digest)) (h : (readings id log).getLast? = some first) :
    (readings id (newer ++ log)).getLast? = some first := by
  induction newer with
  | nil => exact h
  | cons e newer ih =>
    rw [List.cons_append]
    rcases readings_cons id e (newer ++ log) with hsame | ⟨now, hmore, -⟩
    · rw [hsame]
      exact ih
    · rw [hmore]
      cases hold : readings id (newer ++ log) with
      | nil =>
        rw [hold] at ih
        cases ih
      | cons t rest =>
        rw [List.getLast?_cons_cons, ← hold]
        exact ih

/-- The first reading is one of an entry. -/
theorem first_entry (h : readings id log ≠ []) : ∃ newer e older, log = newer ++ e :: older ∧ during id e.st = true ∧
    readings id (e :: older) ≠ [] := by
  induction log with
  | nil => exact absurd rfl h
  | cons e log ih =>
    rcases readings_cons id e log with hsame | ⟨now, hmore, hd⟩
    · rw [hsame] at h
      obtain ⟨newer, m, older, hlog, hd, hne⟩ := ih h
      exact ⟨e :: newer, m, older, by rw [hlog, List.cons_append], hd, hne⟩
    · exact ⟨[], e, log, rfl, hd, h⟩

theorem Asked.append {budget : ℤ} (newer : List (GEntry digest)) (h : Asked codec id budget log)
    (hne : readings id log ≠ []) : Asked codec id budget (newer ++ log) := by
  have hboth : Asked codec id budget (newer ++ log) ∧ readings id (newer ++ log) ≠ [] := by
    induction newer with
    | nil => exact ⟨h, hne⟩
    | cons e newer ih =>
      obtain ⟨ih, hread⟩ := ih
      refine ⟨ih.cons (.inr hread), ?_⟩
      rw [List.cons_append]
      rcases readings_cons id e (newer ++ log) with hsame | ⟨now, hmore, -⟩
      · rw [hsame]
        exact hread
      · rw [hmore]
        exact List.cons_ne_nil _ _
  exact hboth.1

/-- What another call does is nothing to a call that is due. -/
theorem Due.other (h : Due codec id log) (hd : during id e.st = false) : Due codec id (e :: log) := by
  obtain ⟨budget, first, hbudget, hasked, hfirst, hless⟩ := h.timely
  have hsame : readings id (e :: log) = readings id log :=
    readings_other fun now _ hd' => by rw [hd] at hd'; cases hd'
  have hread : readings id log ≠ [] := fun hnil => by rw [hnil] at hfirst; cases hfirst
  refine ⟨⟨budget, first, allotted_some hbudget, hasked.cons (.inr hread), ?_, ?_⟩, ?_, fun hq => ?_⟩
  · rw [hsame]
    exact hfirst
  · rw [hsame]
    exact hless
  · rintro ⟨m, hm, hx⟩
    rcases List.mem_cons.1 hm with rfl | hm
    · rcases hx with ⟨-, hd'⟩ | ⟨c, hc, hid, -⟩
      · rw [hd] at hd'
        cases hd'
      · have hd' := during_active hc
        rw [hid, hd] at hd'
        cases hd'
    · exact h.wanted ⟨m, hm, hx⟩
  · rw [fails_other hd]
    exact h.clean fun hn => hq (Disturbed.cons hn)

/-! ## What the client knows -/

/-- The budget of the active call. -/
def budget (log : List (GEntry digest)) (c : Call) : ℤ := (allotted c.request.requestId log).getD c.request.budgetMs

/-- **The times of the active call** are those that the log shows. -/
structure Timed (codec : Codec) (log : List (GEntry digest)) (c : Call) : Prop where
  last : c.lastTime = (readings c.request.requestId log).head?
  deadline : c.deadline = (readings c.request.requestId log).getLast?.map fun t => t + budget log c
  asked : Asked codec c.request.requestId (budget log c) log
  fresh : readings c.request.requestId log = [] → c.request.budgetMs = budget log c

/-- From `s` to `s'`, the call takes the local route. -/
def Falls (id : String) (s s' : Sys digest) : Prop :=
  ∃ c c' k l, s.client.active = some c ∧ s'.client.active = some c' ∧ c.request.requestId = id ∧
    c'.request.requestId = id ∧ c.route = .host k ∧ c'.route = .vm l

/-- **What the client knows**, given the log. -/
structure Core (codec : Codec) (log : List (GEntry digest)) (s : Sys digest) : Prop where
  known : ∀ e ∈ log, ∀ id, during id e.st = true → id ∈ s.client.history
  current : ∀ c, s.client.active = some c → c.request.requestId ∈ s.client.history
  past : ∀ id t, .stored id t ∈ s.trail → id ∈ s.client.history ∧ during id s = false
  timed : ∀ c, s.client.active = some c → Timed codec log c
  wanted : ∀ c, s.client.active = some c → Canceled c.request.requestId log → c.cancelRequested = true
  succeeded : ∀ id t, .stored id t ∈ s.trail → t.succeeded.isSome → Due codec id log
  fell : ∀ m older, log = m :: older → ∀ id, Falls id m.st s → Due codec id log

/-- The budget of an active call is not changed by an entry. -/
theorem budget_cons (c : Call) (hc : e.st.client.active = some c) : budget (e :: log) c = budget log c := by
  unfold budget
  rw [allotted, hc]
  cases allotted c.request.requestId log with
  | some b => rfl
  | none => simp [Option.filter_some]

/-- A change of the active call that leaves its times and its route as they are. -/
structure Kin (c c' : Call) : Prop where
  id : c'.request.requestId = c.request.requestId
  budget : c.lastTime = none → c'.request.budgetMs = c.request.budgetMs
  last : c'.lastTime = c.lastTime
  deadline : c'.deadline = c.deadline
  canceled : c.cancelRequested = true → c'.cancelRequested = true
  route : c'.route = c.route

theorem Kin.refl (c : Call) : Kin c c := ⟨rfl, fun _ => rfl, rfl, rfl, fun h => h, rfl⟩

/-- The times of a call, changed so. -/
theorem Timed.kin (h : Timed codec log c) (hk : Kin c c') : Timed codec log c' := by
  have hbudget : Deadline.budget log c' = Deadline.budget log c := by
    unfold Deadline.budget
    rw [hk.id]
    cases hb : allotted c.request.requestId log with
    | some b => rfl
    | none =>
      refine hk.budget ?_
      rw [h.last, allotted_none hb]
      rfl
  refine ⟨?_, ?_, ?_, fun hnil => ?_⟩
  · rw [hk.id, hk.last]
    exact h.last
  · rw [hk.id, hk.deadline, hbudget]
    exact h.deadline
  · rw [hk.id, hbudget]
    exact h.asked
  · rw [hk.id] at hnil
    rw [hbudget, hk.budget (by rw [h.last, hnil]; rfl)]
    exact h.fresh hnil

theorem during_map {f : Call → Call} (h : s'.client.active = s.client.active.map f)
    (hf : ∀ c, s.client.active = some c → (f c).request.requestId = c.request.requestId) (id : String) :
    during id s' = during id s := by
  unfold during
  rw [h]
  cases hc : s.client.active with
  | none => rfl
  | some c =>
    simp only [Option.map_some, Option.any_some]
    rw [hf c hc]

/-- **A change of the client** that leaves the times of its call as they are. -/
theorem Core.put (h : Core codec log s) {f : Call → Call} (ha : s'.client.active = s.client.active.map f)
    (hf : ∀ c, s.client.active = some c → Kin c (f c)) (hh : s'.client.history = s.client.history)
    (ht : ∀ id t, .stored id t ∈ s'.trail → .stored id t ∈ s.trail) : Core codec log s' := by
  have hactive : ∀ c', s'.client.active = some c' → ∃ c, s.client.active = some c ∧ Kin c c' := by
    intro c' hc'
    rw [ha] at hc'
    obtain ⟨c, hc, rfl⟩ := Option.map_eq_some_iff.1 hc'
    exact ⟨c, hc, hf c hc⟩
  refine ⟨fun e he id hd => ?_, fun c' hc' => ?_, fun id t hm => ?_, fun c' hc' => ?_, fun c' hc' hcancel => ?_,
    fun id t hm => h.succeeded id t (ht id t hm), fun m older hlog id hfell => ?_⟩
  · rw [hh]
    exact h.known e he id hd
  · obtain ⟨c, hc, hk⟩ := hactive c' hc'
    rw [hh, hk.id]
    exact h.current c hc
  · obtain ⟨hmem, hd⟩ := h.past id t (ht id t hm)
    rw [hh, during_map ha (fun c hc => (hf c hc).id)]
    exact ⟨hmem, hd⟩
  · obtain ⟨c, hc, hk⟩ := hactive c' hc'
    exact (h.timed c hc).kin hk
  · obtain ⟨c, hc, hk⟩ := hactive c' hc'
    rw [hk.id] at hcancel
    exact hk.canceled (h.wanted c hc hcancel)
  · obtain ⟨c, c', k, l, hc, hc', hid, hid', hroute, hl⟩ := hfell
    obtain ⟨c₁, hc₁, hk⟩ := hactive c' hc'
    exact h.fell m older hlog id ⟨c, c₁, k, l, hc, hc₁, hid, hk.id ▸ hid', hroute, hk.route ▸ hl⟩

/-- A change of the client that leaves its call alone. -/
theorem Core.same (h : Core codec log s) (ha : s'.client.active = s.client.active)
    (hh : s'.client.history = s.client.history) (ht : ∀ id t, .stored id t ∈ s'.trail → .stored id t ∈ s.trail) :
    Core codec log s' :=
  h.put (f := fun c => c) (ha.trans Option.map_id'.symm) (fun c _ => .refl c) hh ht

/-- A flag that a callback left. -/
theorem Core.flag (h : Core codec log s) (d x : Bool) : Core codec log (s.onClient (.flag d x)) :=
  h.put (f := fun c => { c with cancelRequested := c.cancelRequested || x }) rfl
    (fun c _ => ⟨rfl, fun _ => rfl, rfl, rfl, fun hc => by show (c.cancelRequested || x) = true; rw [hc]; rfl, rfl⟩) rfl
    fun _ _ hm => hm

/-- **An entry that is no reading**, and the flags that it leaves; if it asks for the end of the call, the call knows. -/
theorem Core.push_flag (h : Core codec log s) {x : Act Op Answer Exc Method Return} (d y : Bool)
    (hx : ∀ now c, x = .reply .clock (.time now) → s.client.active = some c → misread c.lastTime (.time now) = true)
    (hr : Requests (⟨i, x, s⟩ : GEntry digest) → y = true ∨ ∀ c, s.client.active = some c → c.cancelRequested = true) :
    Core codec (⟨i, x, s⟩ :: log) (s.onClient (.flag d y)) := by
  have hflag := h.flag d y
  have hsame : ∀ id, readings id (⟨i, x, s⟩ :: log) = readings id log := by
    intro id
    refine readings_other fun now hact hd => ?_
    obtain ⟨c, hc, rfl⟩ := during_iff.1 hd
    rw [← (h.timed c hc).last]
    exact hx now c hact hc
  -- the active call, before it was flagged
  have hactive : ∀ c', (s.onClient (.flag d y)).client.active = some c' → ∃ c, s.client.active = some c ∧
      c' = { c with cancelRequested := c.cancelRequested || y } := by
    intro c' hc'
    obtain ⟨c, hc, rfl⟩ := Option.map_eq_some_iff.1 hc'
    exact ⟨c, hc, rfl⟩
  refine ⟨fun e he id hd => ?_, hflag.current, hflag.past, fun c' hc' => ?_, fun c' hc' hcancel => ?_, fun id t hm ht => ?_,
    fun m older hlog id hf => ?_⟩
  · rcases List.mem_cons.1 he with rfl | he
    · obtain ⟨c, hc, rfl⟩ := during_iff.1 hd
      exact h.current c hc
    · exact h.known e he id hd
  · obtain ⟨c, hc, rfl⟩ := hactive c' hc'
    have ht := h.timed c hc
    have hb : budget (⟨i, x, s⟩ :: log) { c with cancelRequested := c.cancelRequested || y } = budget log c :=
      budget_cons c hc
    refine ⟨?_, ?_, ?_, fun hnil => ?_⟩
    · rw [hsame]
      exact ht.last
    · rw [hsame, hb]
      exact ht.deadline
    · rw [hb]
      exact ht.asked.cons (.inl (during_active hc))
    · rw [hsame] at hnil
      rw [hb]
      exact ht.fresh hnil
  · obtain ⟨c, hc, rfl⟩ := hactive c' hc'
    show (c.cancelRequested || y) = true
    have hknown : y = true ∨ c.cancelRequested = true := by
      obtain ⟨m, hm, hx'⟩ := hcancel
      rcases List.mem_cons.1 hm with rfl | hm
      · rcases hx' with ⟨hreq, -⟩ | ⟨c', hc', -, hcancel⟩
        · exact (hr hreq).imp_right fun hall => hall c hc
        · obtain rfl : c = c' := Option.some_inj.1 (hc.symm.trans hc')
          exact .inr hcancel
      · exact .inr (h.wanted c hc ⟨m, hm, hx'⟩)
    rcases hknown with hy | hcancel
    · rw [hy, Bool.or_true]
    · rw [hcancel, Bool.true_or]
  · exact (h.succeeded id t hm ht).other (h.past id t hm).2
  · obtain ⟨rfl, -⟩ := List.cons.inj hlog
    obtain ⟨c₁, c₂, k, l, hc₁, hc₂, -, -, hk, hl⟩ := hf
    obtain ⟨c, hc, rfl⟩ := hactive c₂ hc₂
    obtain rfl : c₁ = c := Option.some_inj.1 (hc₁.symm.trans hc)
    have hroute : c₁.route = .vm l := hl
    rw [hk] at hroute
    cases hroute

/-- An entry that leaves no flags. -/
theorem Core.push (h : Core codec log s) {x : Act Op Answer Exc Method Return}
    (hx : ∀ now c, x = .reply .clock (.time now) → s.client.active = some c → misread c.lastTime (.time now) = true)
    (hr : Requests (⟨i, x, s⟩ : GEntry digest) → ∀ c, s.client.active = some c → c.cancelRequested = true) :
    Core codec (⟨i, x, s⟩ :: log) s := by
  have hpush : Core codec (⟨i, x, s⟩ :: log) (s.onClient (.flag false false)) :=
    h.push_flag false false hx fun hreq => .inr (hr hreq)
  rw [onClient_flag_none] at hpush
  exact hpush

/-- **The clock is told the time**, and the call takes it. -/
theorem Core.told {now : ℤ} (h : Core codec log s) (hc : s.client.active = some c)
    (hgood : misread c.lastTime (.time now) = false) (ha : s'.client.active = some (c.tick now))
    (hh : s'.client.history = s.client.history) (ht : ∀ id t, .stored id t ∈ s'.trail → .stored id t ∈ s.trail) :
    Core codec (⟨i, .reply .clock (.time now), s⟩ :: log) s' := by
  have htimed := h.timed c hc
  have hreadings : readings c.request.requestId (⟨i, .reply .clock (.time now), s⟩ :: log) =
      now :: readings c.request.requestId log := by
    show (if during c.request.requestId s && !misread (readings c.request.requestId log).head? (.time now) then _
      else _) = _
    rw [during_active hc, ← htimed.last, hgood]
    rfl
  have hbudget : budget (⟨i, .reply .clock (.time now), s⟩ :: log) (c.tick now) = budget log c := budget_cons c hc
  have hduring : ∀ id, during id s' = during id s := by
    intro id
    unfold during
    rw [ha, hc]
    rfl
  refine ⟨fun e he id hd => ?_, fun c' hc' => ?_, fun id t hm => ?_, fun c' hc' => ?_, fun c' hc' hcancel => ?_,
    fun id t hm hsome => ?_, fun m older hlog id hfell => ?_⟩
  · rw [hh]
    rcases List.mem_cons.1 he with rfl | he
    · obtain ⟨c₁, hc₁, rfl⟩ := during_iff.1 hd
      exact h.current c₁ hc₁
    · exact h.known e he id hd
  · obtain rfl := Option.some_inj.1 (ha.symm.trans hc')
    rw [hh]
    exact h.current c hc
  · obtain ⟨hmem, hd⟩ := h.past id t (ht id t hm)
    rw [hh, hduring]
    exact ⟨hmem, hd⟩
  · obtain rfl := Option.some_inj.1 (ha.symm.trans hc')
    refine ⟨?_, ?_, ?_, fun hnil => ?_⟩
    · show some now = (readings c.request.requestId _).head?
      rw [hreadings]
      rfl
    · show some (c.deadline.getD (now + c.request.budgetMs)) = (readings c.request.requestId _).getLast?.map _
      rw [hreadings, hbudget, htimed.deadline]
      -- the first reading sets the deadline
      cases hold : readings c.request.requestId log with
      | nil =>
        rw [htimed.fresh hold]
        rfl
      | cons t rest =>
        rw [List.getLast?_cons_cons]
        cases hlast : (t :: rest).getLast? with
        | none => simp at hlast
        | some first => rfl
    · rw [hbudget]
      exact htimed.asked.cons (.inl (during_active hc))
    · have hnil' : readings c.request.requestId (⟨i, .reply .clock (.time now), s⟩ :: log) = [] := hnil
      rw [hreadings] at hnil'
      cases hnil'
  · obtain rfl := Option.some_inj.1 (ha.symm.trans hc')
    obtain ⟨m, hm, hx⟩ := hcancel
    rcases List.mem_cons.1 hm with rfl | hm
    · rcases hx with ⟨hreq | ⟨mine, hreq, -⟩, -⟩ | ⟨c₁, hc₁, -, hcancel⟩
      · cases hreq
      · cases hreq
      · obtain rfl : c = c₁ := Option.some_inj.1 (hc.symm.trans hc₁)
        exact hcancel
    · exact h.wanted c hc ⟨m, hm, hx⟩
  · exact (h.succeeded id t (ht id t hm) hsome).other (h.past id t (ht id t hm)).2
  · obtain ⟨rfl, -⟩ := List.cons.inj hlog
    obtain ⟨c₁, c₂, k, l, hc₁, hc₂, -, -, hk, hl⟩ := hfell
    obtain rfl : c = c₁ := Option.some_inj.1 (hc.symm.trans hc₁)
    obtain rfl := Option.some_inj.1 (ha.symm.trans hc₂)
    have hroute : c.route = .vm l := hl
    rw [hk] at hroute
    cases hroute

/-- No reading for the call failed, if no callback raised what is no `Exception`. -/
def Clean (id : String) (log : List (GEntry digest)) : Prop := ¬ Disturbed log → fails id log = false

/-- **A call with time left**, that nobody wants to end, is due. -/
theorem Core.due (h : Core codec log s) (hc : s.client.active = some c) (ht : InTime c) (hw : c.cancelRequested = false)
    (hclean : Clean c.request.requestId log) : Due codec c.request.requestId log := by
  obtain ⟨last, d, hlast, hd, hlt⟩ := ht
  have htimed := h.timed c hc
  have hhead : (readings c.request.requestId log).head? = some last := htimed.last.symm.trans hlast
  have hdead : (readings c.request.requestId log).getLast?.map (fun t => t + budget log c) = some d :=
    htimed.deadline.symm.trans hd
  obtain ⟨first, hfirst, rfl⟩ := Option.map_eq_some_iff.1 hdead
  obtain ⟨b, hb⟩ : ∃ b, allotted c.request.requestId log = some b := by
    cases hb : allotted c.request.requestId log with
    | some b => exact ⟨b, rfl⟩
    | none =>
      rw [allotted_none hb] at hhead
      cases hhead
  have hbudget : budget log c = b := by
    unfold budget
    rw [hb]
    rfl
  rw [hbudget] at hlt
  refine ⟨⟨b, first, hb, hbudget ▸ htimed.asked, hfirst, fun t hmem => ?_⟩, fun hcancel => ?_, hclean⟩
  · -- no reading is later than the last
    have hsorted := readings_sorted c.request.requestId log
    obtain ⟨rest, hrest⟩ : ∃ rest, readings c.request.requestId log = last :: rest := List.head?_eq_some_iff.1 hhead
    rw [hrest] at hmem hsorted
    rcases List.mem_cons.1 hmem with rfl | hmem
    · exact hlt
    · have hle := (List.pairwise_cons.1 hsorted).1 t hmem
      omega
  · have hc' := h.wanted c hc hcancel
    rw [hw] at hc'
    cases hc'

/-- **A call is accepted.** -/
theorem Core.accept {r : Request} (h : Core codec log s)
    (hr : r.requestId ∉ s.client.history) (hasked : Asked codec r.requestId r.budgetMs log) :
    Core codec log ((s.onClient (.accept r)).mark (.accepted r.requestId)) := by
  have hunseen : ∀ e ∈ log, during r.requestId e.st = false := by
    intro e he
    by_contra hd
    exact hr (h.known e he _ (by simpa using hd))
  obtain ⟨hreadings, -, hallotted, hcanceled⟩ := unseen hunseen
  refine ⟨fun e he id hd => List.mem_cons_of_mem _ (h.known e he id hd), fun c hc => ?_, fun id t hm => ?_,
    fun c hc => ?_, fun c hc hcancel => ?_, fun id t hm => ?_, fun m older hlog id hfell => ?_⟩
  · cases hc
    exact List.mem_cons_self
  · have hm' : .stored id t ∈ s.trail := by simpa [Sys.mark, Sys.onClient] using hm
    have hmem := (h.past id t hm').1
    refine ⟨List.mem_cons_of_mem _ hmem, ?_⟩
    show decide (r.requestId = id) = false
    rw [decide_eq_false_iff_not]
    rintro rfl
    exact hr hmem
  · cases hc
    have hbudget : budget log (.new r s.client.host) = r.budgetMs := by
      unfold budget
      show (allotted r.requestId log).getD r.budgetMs = _
      rw [hallotted]
      rfl
    refine ⟨?_, ?_, ?_, fun _ => hbudget.symm⟩
    · show none = (readings r.requestId log).head?
      rw [hreadings]
      rfl
    · show none = (readings r.requestId log).getLast?.map _
      rw [hreadings]
      rfl
    · rw [hbudget]
      exact hasked
  · cases hc
    exact absurd hcancel hcanceled
  · have hm' : .stored id t ∈ s.trail := by simpa [Sys.mark, Sys.onClient] using hm
    exact h.succeeded id t hm'
  · obtain ⟨c, c', k, l, -, hc', -, -, -, hl⟩ := hfell
    cases hc'
    cases hl

/-- **A terminal is stored.** A success is, while the call is due. -/
theorem Core.store (h : Core codec log s) (hc : s.client.active = some c) (t : Terminal)
    (ht : t.succeeded.isSome → Due codec c.request.requestId log) :
    Core codec log (s.store c.request.requestId t) := by
  refine ⟨h.known, fun c' hc' => (by cases hc'), fun id t' hm => ?_, fun c' hc' => (by cases hc'),
    fun c' hc' => (by cases hc'), fun id t' hm hsome => ?_, fun m older hlog id hfell => ?_⟩
  · rcases List.mem_cons.1 hm with heq | hm
    · cases heq
      exact ⟨h.current c hc, rfl⟩
    · exact ⟨(h.past id t' hm).1, rfl⟩
  · rcases List.mem_cons.1 hm with heq | hm
    · cases heq
      exact ht hsome
    · exact h.succeeded id t' hm hsome
  · obtain ⟨c₁, c₂, k, l, -, hc₂, -⟩ := hfell
    cases hc₂

/-- **A call falls back**, while it is due. -/
theorem Core.fall (h : Core codec log s) (hc : s.client.active = some c) (f : Failure) (l : Local)
    (hdue : Due codec c.request.requestId log) :
    Core codec log (s.onClient (.change fun call => { call with primary := some f, route := .vm l })) := by
  have hput : ∀ c', (s.onClient (.change fun call => { call with primary := some f, route := .vm l })).client.active =
      some c' → c' = { c with primary := some f, route := .vm l } := by
    intro c' hc'
    obtain ⟨c₁, hc₁, rfl⟩ := Option.map_eq_some_iff.1 hc'
    rw [Option.some_inj.1 (hc.symm.trans hc₁)]
  refine ⟨h.known, fun c' hc' => ?_, fun id t hm => ?_, fun c' hc' => ?_, fun c' hc' hcancel => ?_,
    h.succeeded, fun m older hlog id hfell => ?_⟩
  · rw [hput c' hc']
    exact h.current c hc
  · obtain ⟨hmem, hd⟩ := h.past id t hm
    refine ⟨hmem, ?_⟩
    rw [during_map (s := s) (f := fun call => { call with primary := some f, route := .vm l }) rfl fun _ _ => rfl]
    exact hd
  · rw [hput c' hc']
    obtain ⟨hlast, hdead, hasked, hfresh⟩ := h.timed c hc
    exact ⟨hlast, hdead, hasked, hfresh⟩
  · rw [hput c' hc'] at hcancel ⊢
    exact h.wanted c hc hcancel
  · obtain ⟨c₁, c₂, k, l', hc₁, hc₂, hid, hid₂, -⟩ := hfell
    rw [hput c₂ hc₂] at hid₂
    rw [← hid₂]
    exact hdue

end Deadline

end Gateway

end Arhugula
