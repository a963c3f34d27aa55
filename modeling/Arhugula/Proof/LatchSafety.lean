import Arhugula.Proof.TranscriptSafety
import Arhugula.Spec.Ceiling

/-!
# What a Codex transcript reported wrong is not forgotten

A record reports identities, windows and usages (`reports`), and of a state they move only what a gauge shows
(`feed_gauge`). A gauge is flagged if and only if what was reported is troubled (`flagged_iff`): a usage or a window
that is invalid, two windows or two identities that differ. More reports only trouble more; so once the transcript
has reported trouble, no scan of it, however it grows, is a measurement (`measurement_latches`).
-/

namespace Arhugula

namespace Watch

/-! ## Gauges -/

/-- What a record reports: who the session is, its window where that is valid, and whether a usage is valid. -/
inductive Report where
  | identity (id : Str)
  | window (tokens : Option ℕ)
  | usage (valid : Bool)
  deriving DecidableEq

/-- What reports move. -/
structure Gauge where
  identity : Option Str
  conflict : Bool
  window : Option ℕ
  error : Option MetricError
  deriving DecidableEq

namespace Gauge

/-- Nothing was reported. -/
def start : Gauge := ⟨none, false, none, none⟩

/-- A report is seen. -/
def see (g : Gauge) : Report → Gauge
  | .identity id => match g.identity with
    | none => { g with identity := some id }
    | some known => if known ≠ id then { g with conflict := true } else g
  | .window none => { g with error := some .invalidContextWindow, window := none }
  | .window (some n) =>
    if g.window.any fun previous => previous ≠ n then
      { g with error := some .conflictingContextWindow, window := none }
    else if g.error ≠ some .invalidContextWindow ∧ g.error ≠ some .conflictingContextWindow then
      { g with window := some n }
    else g
  | .usage true => g
  | .usage false => { g with error := some .invalidRequestMetric }

/-- No measurement is made of it. -/
def Flagged (g : Gauge) : Prop := g.error.isSome ∨ g.conflict = true

end Gauge

/-- **Trouble**: an invalid usage, an invalid window, windows that differ, or identities that differ. -/
def Troubled (reports : List Report) : Prop :=
  .usage false ∈ reports ∨ .window none ∈ reports ∨
    (∃ m n, .window (some m) ∈ reports ∧ .window (some n) ∈ reports ∧ m ≠ n) ∨
    ∃ a b, .identity a ∈ reports ∧ .identity b ∈ reports ∧ a ≠ b

/-- Reports that come later do not take trouble back. -/
theorem Troubled.mono {earlier all : List Report} (ht : Troubled earlier) (hsub : earlier ⊆ all) : Troubled all := by
  rcases ht with hu | hw | ⟨m, n, hm, hn, hne⟩ | ⟨a, b, ha, hb, hne⟩
  · exact .inl (hsub hu)
  · exact .inr (.inl (hsub hw))
  · exact .inr (.inr (.inl ⟨m, n, hsub hm, hsub hn, hne⟩))
  · exact .inr (.inr (.inr ⟨a, b, hsub ha, hsub hb, hne⟩))

/-- What a gauge knows of the reports it saw: the identity and the window it shows were reported; without an error
every usage and every window was valid and that window; without a conflict every identity was that identity. -/
structure Gauge.Shows (reports : List Report) (g : Gauge) : Prop where
  identity : ∀ id, g.identity = some id → .identity id ∈ reports
  window : ∀ n, g.window = some n → .window (some n) ∈ reports
  flagged : g.Flagged → Troubled reports
  calm : g.error = none → .usage false ∉ reports ∧ .window none ∉ reports ∧
    ∀ n, .window (some n) ∈ reports → g.window = some n
  agreed : g.conflict = false → ∀ id, .identity id ∈ reports → g.identity = some id

theorem Gauge.shows_start : Shows [] start := by
  refine ⟨?_, ?_, ?_, ?_, ?_⟩
  · intro id hid
    cases hid
  · intro n hn
    cases hn
  · rintro (he | hc)
    · cases he
    · cases hc
  · intro _
    simp
  · intro _ id hid
    cases hid

section

variable {reports : List Report} {g : Gauge}

/-- An identity is seen. -/
theorem Gauge.Shows.identity_step (hg : g.Shows reports) (id : Str) :
    (g.see (.identity id)).Shows (reports ++ [Report.identity id]) := by
  have hsub : reports ⊆ reports ++ [Report.identity id] := List.subset_append_left _ _
  have hcalm : g.error = none → Report.usage false ∉ reports ++ [Report.identity id] ∧
      Report.window none ∉ reports ++ [Report.identity id] ∧
        ∀ n, Report.window (some n) ∈ reports ++ [Report.identity id] → g.window = some n := by
    intro he
    obtain ⟨husage, hwindow, hsame⟩ := hg.calm he
    refine ⟨by simpa using husage, by simpa using hwindow, fun n hn => hsame n (by simpa using hn)⟩
  simp only [Gauge.see]
  split
  · rename_i hnone
    refine ⟨?_, fun n hn => hsub (hg.window n hn), fun hf => (hg.flagged hf).mono hsub, hcalm, ?_⟩
    · intro id' hid'
      cases hid'
      exact List.mem_append_right _ List.mem_cons_self
    · intro hc id' hid'
      rcases List.mem_append.1 hid' with hold | hnew
      · rw [hg.agreed hc id' hold] at hnone
        cases hnone
      · cases List.mem_singleton.1 hnew
        rfl
  · rename_i known hknown
    have hreported : Report.identity known ∈ reports ++ [Report.identity id] := hsub (hg.identity known hknown)
    split
    · rename_i hne
      refine ⟨fun id' hid' => hsub (hg.identity id' hid'), fun n hn => hsub (hg.window n hn), fun _ => ?_, hcalm, ?_⟩
      · exact .inr (.inr (.inr ⟨known, id, hreported, List.mem_append_right _ List.mem_cons_self, hne⟩))
      · intro hc
        cases hc
    · rename_i hsame
      have heq : known = id := not_not.1 hsame
      refine ⟨fun id' hid' => hsub (hg.identity id' hid'), fun n hn => hsub (hg.window n hn),
        fun hf => (hg.flagged hf).mono hsub, hcalm, ?_⟩
      intro hc id' hid'
      rcases List.mem_append.1 hid' with hold | hnew
      · exact hg.agreed hc id' hold
      · cases List.mem_singleton.1 hnew
        rw [hknown, heq]

/-- A window is seen. -/
theorem Gauge.Shows.window_step (hg : g.Shows reports) (tokens : Option ℕ) :
    (g.see (.window tokens)).Shows (reports ++ [Report.window tokens]) := by
  have hsub : reports ⊆ reports ++ [Report.window tokens] := List.subset_append_left _ _
  have hlast : Report.window tokens ∈ reports ++ [Report.window tokens] := List.mem_append_right _ List.mem_cons_self
  have hagreed : g.conflict = false →
      ∀ id, Report.identity id ∈ reports ++ [Report.window tokens] → g.identity = some id :=
    fun hc id hid => hg.agreed hc id (by simpa using hid)
  cases tokens with
  | none =>
    refine ⟨fun id hid => hsub (hg.identity id hid), ?_, fun _ => .inr (.inl hlast), ?_, hagreed⟩
    · intro n hn
      cases hn
    · intro he
      cases he
  | some n =>
    simp only [Gauge.see]
    split
    · rename_i hany
      obtain ⟨previous, hprevious, hne⟩ := Option.any_eq_true _ _ |>.1 hany
      refine ⟨fun id hid => hsub (hg.identity id hid), ?_, fun _ => ?_, ?_, hagreed⟩
      · intro m hm
        cases hm
      · exact .inr (.inr (.inl ⟨previous, n, hsub (hg.window previous hprevious), hlast, of_decide_eq_true hne⟩))
      · intro he
        cases he
    · rename_i hany
      -- the window that is shown, if one is, is the one that is seen
      have hshown : ∀ m, g.window = some m → m = n := by
        intro m hm
        by_contra hne
        rw [hm] at hany
        exact hany (decide_eq_true hne)
      split
      · refine ⟨fun id hid => hsub (hg.identity id hid), ?_, fun hf => (hg.flagged hf).mono hsub, ?_, hagreed⟩
        · intro m hm
          cases hm
          exact hlast
        · intro he
          obtain ⟨husage, hwindow, hsame⟩ := hg.calm he
          refine ⟨by simpa using husage, by simpa using hwindow, fun m hm => ?_⟩
          rcases List.mem_append.1 hm with hold | hnew
          · rw [hshown m (hsame m hold)]
          · cases List.mem_singleton.1 hnew
            rfl
      · rename_i herror
        refine ⟨fun id hid => hsub (hg.identity id hid), fun m hm => hsub (hg.window m hm),
          fun hf => (hg.flagged hf).mono hsub, ?_, hagreed⟩
        intro he
        rw [he] at herror
        exact absurd ⟨by simp, by simp⟩ herror

/-- A usage is seen. -/
theorem Gauge.Shows.usage_step (hg : g.Shows reports) (valid : Bool) :
    (g.see (.usage valid)).Shows (reports ++ [Report.usage valid]) := by
  have hsub : reports ⊆ reports ++ [Report.usage valid] := List.subset_append_left _ _
  have hagreed : g.conflict = false → ∀ id, Report.identity id ∈ reports ++ [Report.usage valid] → g.identity = some id :=
    fun hc id hid => hg.agreed hc id (by simpa using hid)
  cases valid with
  | false =>
    refine ⟨fun id hid => hsub (hg.identity id hid), fun n hn => hsub (hg.window n hn), fun _ => ?_, ?_, hagreed⟩
    · exact .inl (List.mem_append_right _ List.mem_cons_self)
    · intro he
      cases he
  | true =>
    refine ⟨fun id hid => hsub (hg.identity id hid), fun n hn => hsub (hg.window n hn),
      fun hf => (hg.flagged hf).mono hsub, ?_, hagreed⟩
    intro he
    obtain ⟨husage, hwindow, hsame⟩ := hg.calm he
    exact ⟨by simpa using husage, by simpa using hwindow, fun n hn => hsame n (by simpa using hn)⟩

/-- **What a gauge shows** once reports were seen, whatever their order. -/
theorem Gauge.shows_foldl (reports : List Report) : (reports.foldl see start).Shows reports := by
  induction reports using List.reverseRecOn with
  | nil => exact shows_start
  | append_singleton reports report ih =>
    rw [List.foldl_append]
    cases report with
    | identity id => exact ih.identity_step id
    | window tokens => exact ih.window_step tokens
    | usage valid => exact ih.usage_step valid

/-- **A gauge is flagged if and only if trouble was reported.** -/
theorem Gauge.flagged_iff (reports : List Report) : (reports.foldl see start).Flagged ↔ Troubled reports := by
  have hg := shows_foldl reports
  refine ⟨hg.flagged, fun ht => ?_⟩
  by_contra hf
  obtain ⟨herror, hconflict⟩ := not_or.1 hf
  obtain ⟨husage, hwindow, hsame⟩ := hg.calm (by simpa using herror)
  have hagreed := hg.agreed (by simpa using hconflict)
  rcases ht with hu | hw | ⟨m, n, hm, hn, hne⟩ | ⟨a, b, ha, hb, hne⟩
  · exact husage hu
  · exact hwindow hw
  · exact hne (Option.some.inj ((hsame m hm).symm.trans (hsame n hn)))
  · exact hne (Option.some.inj ((hagreed a ha).symm.trans (hagreed b hb)))

end

/-! ## Records -/

/-- An identity that is no text, or an empty one, reports nothing. -/
def identityReports (value : Json) : List Report := value.nonempty.toList.map .identity

/-- A window that is `None` reports nothing. -/
def windowReports : Json → List Report
  | .null => []
  | value => [.window (value.nonnegative.filter fun n => n ≠ 0)]

/-- Are the counts of a usage an input and what of it was cached? -/
def validUsage (usage : Json) : Bool :=
  match (usage.get "input_tokens").nonnegative, ((usage.find "cached_input_tokens").getD (.int 0)).nonnegative with
  | some input, some cached => cached ≤ input
  | _, _ => false

/-- A usage that is no dict reports nothing. -/
def usageReports (usage : Json) : List Report := if usage.isDict then [.usage (validUsage usage)] else []

/-- What an event reports. -/
def eventReports (payload : Json) : List Report :=
  let event := payload.get "type"
  let info := (payload.get "info").or (.dict [])
  if State.isText event "task_started" then windowReports (payload.get "model_context_window")
  else if State.isText event "token_count" && info.isDict then
    usageReports (info.get "last_token_usage") ++ windowReports (info.get "model_context_window")
  else []

/-- What a Codex record reports. -/
def reports (record : Json) : List Report :=
  let payload := record.get "payload"
  let kind := record.get "type"
  if !payload.isDict then []
  else if State.isText kind "session_meta" then
    identityReports ((payload.get "session_id").or (payload.get "id")) ++
      windowReports (payload.get "model_context_window")
  else
    identityReports (payload.get "session_id") ++
      if State.isText kind "token_usage_record" then
        usageReports ((payload.get "usage").or (payload.get "turn_token_usage"))
      else if State.isText kind "event_msg" then eventReports payload
      else []

/-- What a gauge shows of a state. -/
def State.gauge (s : State) : Gauge :=
  ⟨s.sessionId, s.identityConflict, s.reportedContextWindowTokens, s.metricError⟩

namespace State

/-- A text is one literal. -/
theorem isText_other {v : Json} {name other : String} (hv : isText v name = true) (hne : str name ≠ str other) :
    isText v other = false := by
  unfold isText at hv ⊢
  have htext : v.text = some (str name) := of_decide_eq_true hv
  rw [htext]
  exact decide_eq_false fun heq => hne (Option.some.inj heq)

theorem gauge_identity (s : State) (v : Json) : (s.identity v).gauge = (identityReports v).foldl Gauge.see s.gauge := by
  unfold identity identityReports
  cases v.nonempty with
  | none => rfl
  | some id =>
    show _ = s.gauge.see (.identity id)
    cases hknown : s.sessionId with
    | none => simp only [Gauge.see, gauge, hknown]
    | some known =>
      simp only [Gauge.see, gauge, hknown]
      by_cases hne : known ≠ id
      · rw [if_pos hne, if_pos hne]
      · rw [if_neg hne, if_neg hne, hknown]

theorem windowReports_some {v : Json} (hv : v ≠ .null) :
    windowReports v = [.window (v.nonnegative.filter fun n => n ≠ 0)] := by
  unfold windowReports
  split
  · exact absurd rfl hv
  · rfl

theorem gauge_window (s : State) (v : Json) : (s.window v).gauge = (windowReports v).foldl Gauge.see s.gauge := by
  unfold window
  split
  · rfl
  · rename_i value hne
    rw [windowReports_some hne, List.foldl_cons, List.foldl_nil]
    split
    · rename_i hnone
      rw [hnone]
      rfl
    · rename_i n hsome
      rw [hsome]
      by_cases hother : (s.reportedContextWindowTokens.any fun previous => previous ≠ n) = true
      · rw [if_pos hother]
        exact (if_pos hother).symm
      · have hsee : s.gauge.see (.window (some n)) = if s.gauge.error ≠ some .invalidContextWindow ∧
            s.gauge.error ≠ some .conflictingContextWindow then { s.gauge with window := some n } else s.gauge :=
          if_neg hother
        rw [if_neg hother, hsee]
        by_cases hwindow : s.metricError ≠ some .invalidContextWindow ∧
            s.metricError ≠ some .conflictingContextWindow
        · rw [if_pos hwindow]
          exact (if_pos hwindow).symm
        · rw [if_neg hwindow]
          exact (if_neg hwindow).symm

theorem gauge_codexUsage (s : State) (v : Json) :
    (s.codexUsage v).gauge = (usageReports v).foldl Gauge.see s.gauge := by
  unfold codexUsage usageReports
  dsimp only
  by_cases hdict : v.isDict = true
  · rw [hdict, if_neg (by decide), if_pos rfl]
    show _ = s.gauge.see (.usage (validUsage v))
    unfold validUsage
    generalize (v.get "input_tokens").nonnegative = input
    generalize ((v.find "cached_input_tokens").getD (.int 0)).nonnegative = cached
    cases input with
    | none => rfl
    | some input =>
      cases cached with
      | none => rfl
      | some cached =>
        dsimp only
        by_cases hlt : input < cached
        · rw [if_pos hlt, decide_eq_false (by omega)]
          rfl
        · rw [if_neg hlt, decide_eq_true (by omega)]
          rfl
  · rw [Bool.not_eq_true] at hdict
    rw [hdict, if_pos (by decide), if_neg Bool.false_ne_true]
    rfl

/-- An event moves a gauge by what it reports. -/
theorem gauge_codexEvent {record payload : Json} {s s' : State} (hs : s.codexEvent record payload = .ok s') :
    s'.gauge = (eventReports payload).foldl Gauge.see s.gauge := by
  unfold codexEvent at hs
  unfold eventReports
  dsimp only at hs ⊢
  split at hs
  · rename_i hstarted
    cases hs
    rw [if_pos hstarted, gauge_window]
    rfl
  rename_i hstarted
  rw [if_neg hstarted]
  split at hs
  · rename_i hcomplete
    rw [isText_other hcomplete (by decide), Bool.false_and, if_neg Bool.false_ne_true]
    split at hs
    · cases hs
    split at hs
    · cases hs
      rfl
    · cases hs
      rfl
  · obtain ⟨aborted, haborted, hs⟩ := bind_ok hs
    split at hs
    · rename_i habort
      cases hs
      have hother : isText (payload.get "type") "token_count" = false := by
        unfold among at haborted
        split at haborted
        · cases haborted
          obtain ⟨name, hname, htext⟩ := List.any_eq_true.1 habort
          have hall : ∀ name ∈ ["turn_aborted", "task_aborted", "task_failed"], str name ≠ str "token_count" := by
            decide
          exact isText_other htext (hall name hname)
        · cases haborted
      rw [hother, Bool.false_and, if_neg Bool.false_ne_true]
      rfl
    split at hs
    · rename_i hcount
      rw [hcount, Bool.true_and]
      split at hs
      · rename_i hdict
        cases hs
        rw [if_pos hdict, List.foldl_append, gauge_window, gauge_codexUsage]
      · rename_i hdict
        cases hs
        rw [if_neg hdict]
        rfl
    rename_i hcount
    rw [Bool.not_eq_true] at hcount
    rw [hcount, Bool.false_and, if_neg Bool.false_ne_true]
    split at hs
    · cases hs
      show (State.gauge _) = s.gauge
      unfold gauge
      split <;> rfl
    · cases hs
      rfl

/-- A record moves a gauge by what it reports. -/
theorem gauge_feedCodex {record : Json} {s s' : State} (hs : s.feedCodex record = .ok s') :
    s'.gauge = (reports record).foldl Gauge.see s.gauge := by
  unfold feedCodex at hs
  unfold reports
  dsimp only at hs ⊢
  split at hs
  · rename_i hdict
    cases hs
    rw [if_pos hdict]
    rfl
  rename_i hdict
  rw [if_neg hdict]
  unfold codexRecord at hs
  dsimp only at hs
  by_cases hmeta : isText (record.get "type") "session_meta" = true
  · rw [if_pos hmeta, if_pos hmeta] at hs
    cases hs
    rw [if_pos hmeta, List.foldl_append, gauge_window, gauge_identity]
  rw [if_neg hmeta, if_neg hmeta] at hs
  rw [if_neg hmeta, List.foldl_append, ← gauge_identity]
  generalize s.identity ((record.get "payload").get "session_id") = s at hs
  split at hs
  · rename_i hturn
    cases hs
    rw [isText_other hturn (by decide), isText_other hturn (by decide)]
    show (State.gauge _) = s.gauge
    unfold gauge
    split <;> rfl
  split at hs
  · rename_i husage
    cases hs
    rw [if_pos husage, gauge_codexUsage]
  rename_i husage
  rw [if_neg husage]
  split at hs
  · rename_i hcompacted
    obtain ⟨prior, -, hs⟩ := bind_ok hs
    obtain ⟨usage, -, hs⟩ := bind_ok hs
    cases hs
    rw [isText_other hcompacted (by decide)]
    rfl
  split at hs
  · rename_i hevent
    rw [if_pos hevent]
    exact gauge_codexEvent hs
  · rename_i hevent
    cases hs
    rw [if_neg hevent]
    rfl

theorem gauge_feed {h : Host} {record : Json} {s s' : State} (hk : s.kind = .codex) (hs : s.feed h record = .ok s') :
    s'.kind = .codex ∧ s'.gauge = (reports record).foldl Gauge.see s.gauge := by
  obtain ⟨s₁, hfed, heq⟩ := feed_fed hs
  refine ⟨?_, ?_⟩
  · rw [heq, ← hk, ← hfed.kind]
    split <;> rfl
  · unfold feed at hs
    split at hs
    · cases hs
    obtain ⟨fed, hkind, hs⟩ := bind_ok hs
    have hcodex : (s.activity (record.get "timestamp")).feedCodex record = .ok fed := by
      unfold feedKind at hkind
      rw [(activity_calm s _).kind, hk] at hkind
      exact hkind
    have hactivity : (s.activity (record.get "timestamp")).gauge = s.gauge := by
      unfold activity
      split
      · rfl
      · split <;> rfl
    rw [← hactivity, ← gauge_feedCodex hcodex]
    cases hs
    split <;> rfl

end State

/-! ## Scans -/

variable {h : Host} {s s' : State} {summary : Summary} {seen more bytes : List UInt8} {lines : List (List UInt8)}
  {offset : ℕ}

/-- What lines hold. -/
def recordsOf (h : Host) (lines : List (List UInt8)) : List Json := lines.filterMap fun line => (h.loads line).toOption

/-- What the complete lines of a transcript hold. -/
def records (h : Host) (bytes : List UInt8) : List Json := recordsOf h ((splitLines bytes).filter ended)

/-- Lines move a gauge by what their records report. -/
theorem gauge_feedLines (hk : s.kind = .codex) (hl : feedLines h s offset lines = .ok s') :
    s'.gauge = ((recordsOf h lines).flatMap reports).foldl Gauge.see s.gauge := by
  induction lines generalizing s offset with
  | nil =>
    cases hl
    rfl
  | cons line lines ih =>
    obtain ⟨s₁, hline, hl⟩ := bind_ok
      (show (feedLine h s offset line >>= fun s => feedLines h s (offset + line.length) lines) = _ from hl)
    obtain ⟨record, hloads, hfeed⟩ := feedLine_ok hline
    obtain ⟨hkind, hgauge⟩ := State.gauge_feed hk hfeed
    have hcons : recordsOf h (line :: lines) = record :: recordsOf h lines := by
      unfold recordsOf
      rw [List.filterMap_cons, hloads]
      rfl
    rw [hcons, List.flatMap_cons, List.foldl_append, ← hgauge]
    exact ih hkind hl

/-- A transcript that grows is scanned now and then, each time from where the scan before it stopped. -/
inductive Scans (h : Host) (kind : Kind) : List UInt8 → Summary → ℕ → Prop where
  | fresh (bytes : List UInt8) : Scans h kind bytes (.fresh kind) 0
  | again {bytes bytes' : List UInt8} {prior summary : Summary} {offset offset' : ℕ} :
    Scans h kind bytes prior offset → bytes <+: bytes' → scan h bytes' prior offset = .ok (summary, offset') →
    Scans h kind bytes' summary offset'

theorem Scans.measured {kind : Kind} (hs : Scans h kind bytes summary offset) :
    Measured h kind bytes summary.state offset := by
  induction hs with
  | fresh bytes => exact .start h kind bytes
  | again _ hgrows hscan ih => exact (scan_ok (ih.grow hgrows) hscan).1

/-- A tail without a newline has no complete line. -/
theorem filter_ended_tail {tail : List UInt8} (ht : 10 ∉ tail) : (splitLines tail).filter ended = [] := by
  rw [splitLines_tail ht, List.filter_eq_nil_iff]
  intro line hline hended
  have heq : line = tail := by
    split at hline
    · cases hline
    · exact List.mem_singleton.1 hline
  have hlast : tail.getLast? = some 10 := of_decide_eq_true (heq ▸ hended)
  exact ht (List.mem_of_getLast? hlast)

/-- A scan has fed the complete lines, all of them. -/
theorem scan_fed {kind : Kind} {prior : Summary} {offset' : ℕ} (hm : Measured h kind bytes prior.state offset)
    (hs : scan h bytes prior offset = .ok (summary, offset')) :
    feedLines h (.fresh kind) 0 ((splitLines bytes).filter ended) = .ok summary.state := by
  obtain ⟨head, tail, rfl, hhead, htail, hscan⟩ := scan_measured hm
  have hcomplete : (splitLines (head ++ tail)).filter ended = splitLines head := by
    rw [splitLines_append hhead, List.filter_append, filter_ended_tail htail, List.append_nil,
      List.filter_eq_self.2 (splitLines_ended hhead)]
  unfold scan at hs
  obtain ⟨⟨s, tailed, o⟩, hlines, hs⟩ := bind_ok hs
  cases hs
  rw [hscan] at hlines
  obtain ⟨s₁, hfed, hfinish⟩ := bind_ok
    (show (feedLines h (.fresh kind) 0 (splitLines head) >>= fun s => finish s head.length tail) = _ from hlines)
  obtain ⟨heq, -⟩ := finish_ok hfinish
  rw [hcomplete, hfed]
  exact congrArg _ heq.symm

/-- A complete line stays one. -/
theorem records_subset (h : Host) (seen more : List UInt8) : records h seen ⊆ records h (seen ++ more) := by
  obtain ⟨head, tail, rfl, hhead, htail⟩ := exists_split seen
  unfold records
  rw [List.append_assoc, splitLines_append hhead, splitLines_append hhead, List.filter_append, List.filter_append,
    filter_ended_tail htail, List.append_nil]
  unfold recordsOf
  rw [List.filterMap_append]
  exact List.subset_append_left _ _

/-- **What a scan flags**: trouble in the complete lines of the transcript, and nothing else. -/
theorem Scans.flagged_iff {prior : Summary} {offset' : ℕ} (hp : Measured h .codex bytes prior.state offset)
    (hs : scan h bytes prior offset = .ok (summary, offset')) :
    summary.state.gauge.Flagged ↔ Troubled ((records h bytes).flatMap reports) := by
  rw [gauge_feedLines rfl (scan_fed hp hs)]
  exact Gauge.flagged_iff _

end Watch

namespace Ceiling

open Watch

variable {h : Watch.Host} {summary : Summary} {seen more : List UInt8} {offset : ℕ}

theorem known_flagged {s : Watch.State} (hf : s.gauge.Flagged) : Measurement.known s = none := by
  cases hknown : Measurement.known s with
  | none => rfl
  | some m =>
    exfalso
    unfold Measurement.known at hknown
    obtain ⟨requestInput, -, hknown⟩ := Option.bind_eq_some_iff.1 hknown
    obtain ⟨responseOutput, -, hknown⟩ := Option.bind_eq_some_iff.1 hknown
    obtain ⟨window, -, hknown⟩ := Option.bind_eq_some_iff.1 hknown
    obtain ⟨sessionId, -, hknown⟩ := Option.bind_eq_some_iff.1 hknown
    obtain ⟨model, -, hknown⟩ := Option.bind_eq_some_iff.1 hknown
    split at hknown
    · cases hknown
    · rename_i hwhole
      rcases hf with herror | hconflict
      · exact hwhole (.inr (.inr (.inl herror)))
      · exact hwhole (.inr (.inl hconflict))

/-- **Errors of a measurement latch**: where the complete lines of a transcript reported an invalid usage, an invalid
window, windows or identities that differ, no scan of it, however it grew and however often it was scanned before, is a
measurement. -/
theorem measurement_latches (hs : Scans h .codex (seen ++ more) summary offset)
    (ht : Troubled ((records h seen).flatMap reports)) (expected : Option LaneIdentity) :
    Measurement.parse summary.state expected =
      .error (.hold "lane identity, model, window or usage is unknown".toList) := by
  have hknown : Measurement.known summary.state = none := by
    cases hs with
    | fresh => rfl
    | again hprior hgrows hscan =>
      refine known_flagged ((Scans.flagged_iff (hprior.measured.grow hgrows) hscan).2 (ht.mono ?_))
      intro report hreport
      obtain ⟨record, hrecord, hreports⟩ := List.mem_flatMap.1 hreport
      exact List.mem_flatMap.2 ⟨record, records_subset h seen more hrecord, hreports⟩
  unfold Measurement.parse
  rw [hknown]

namespace Example

/-- A usage of so many input tokens. -/
def used (input : ℤ) : Watch.Json :=
  .dict [(str "type", .str (str "token_usage_record")), (str "payload", .dict [
    (str "session_id", .str (str "s")),
    (str "usage", .dict [(str "input_tokens", .int input), (str "output_tokens", .int 1)])])]

/-- A line of one byte is a usage: of this byte less 50. -/
def counting : Watch.Host where
  loads
    | [byte, 10] => .ok (used ((byte.toNat : ℤ) - 50))
    | _ => .error true
  sha256 s := s

/-- What a scan leaves. -/
def scanned (bytes : List UInt8) (prior : Summary) (offset : ℕ) : Summary :=
  match scan counting bytes prior offset with
  | .ok r => r.1
  | .error _ => prior

end Example

/-- A usage below zero, then one that is a count: the transcript is scanned after each. -/
theorem measurement_latches_example : ∃ summary, Scans Example.counting .codex ([20, 10] ++ [60, 10]) summary 4 ∧
    summary.state.latestRequestInputTokens = some 10 ∧
    Measurement.parse summary.state none =
      .error (.hold "lane identity, model, window or usage is unknown".toList) := by
  have hfirst : scan Example.counting [20, 10] (.fresh .codex) 0 = .ok (Example.scanned [20, 10] (.fresh .codex) 0, 2) := by
    rfl
  have hsecond : scan Example.counting ([20, 10] ++ [60, 10]) (Example.scanned [20, 10] (.fresh .codex) 0) 2 =
      .ok (Example.scanned ([20, 10] ++ [60, 10]) (Example.scanned [20, 10] (.fresh .codex) 0) 2, 4) := by
    rfl
  have hscans := Scans.again (.fresh [20, 10]) List.prefix_rfl hfirst
  have hagain := hscans.again (List.prefix_append _ _) hsecond
  exact ⟨_, hagain, by rfl, measurement_latches hagain (.inl (by decide +kernel)) none⟩

end Ceiling

end Arhugula
