import Mathlib.Data.List.Infix
import Arhugula.Spec.Contracts
import Arhugula.Spec.Transcript

/-!
# A transcript is scanned piece by piece

A file is some complete lines and a tail without a newline. Its complete lines are fed one after the other, whatever
the tail is; so a scan that goes on where an earlier one stopped, on the file as it has grown, returns what a scan of
the whole file returns (`scan_resume`), what it raises included.

What a session cost at its start is measured when its completions become one, and stays (`startup_first`).
-/

namespace Arhugula

namespace Watch

variable {h : Host} {s s' : State} {a b : List UInt8} {lines lines' : List (List UInt8)} {offset : ℕ}

/-! ## Lines -/

/-- Nothing, or lines that all end with a newline. -/
def Complete (bytes : List UInt8) : Prop := bytes = [] ∨ bytes.getLast? = some 10

theorem Complete.tail {c : UInt8} (hc : Complete (c :: a)) : Complete a := by
  cases a with
  | nil => exact .inl rfl
  | cons d a =>
    refine .inr ?_
    rcases hc with hc | hc
    · cases hc
    · simpa using hc

theorem Complete.append (ha : Complete a) (hb : Complete b) : Complete (a ++ b) := by
  rcases hb with rfl | hb
  · rwa [List.append_nil]
  · refine .inr ?_
    rw [List.getLast?_append, hb]
    rfl

theorem splitLines_ne (hne : a ≠ []) : splitLines a ≠ [] := by
  cases a with
  | nil => exact absurd rfl hne
  | cons c a =>
    unfold splitLines
    split
    · simp
    · split <;> simp

theorem splitLines_append (ha : Complete a) (b : List UInt8) : splitLines (a ++ b) = splitLines a ++ splitLines b := by
  induction a with
  | nil => rfl
  | cons c a ih =>
    have ih := ih ha.tail
    rw [List.cons_append, splitLines, splitLines, ih]
    by_cases hc : c = 10
    · rw [if_pos hc, if_pos hc, List.cons_append]
    · rw [if_neg hc, if_neg hc]
      have hne : a ≠ [] := by
        rintro rfl
        rcases ha with ha | ha
        · cases ha
        · simp at ha
          exact hc ha
      cases hl : splitLines a with
      | nil => exact absurd hl (splitLines_ne hne)
      | cons line lines => rfl

theorem splitLines_ended (ha : Complete a) : ∀ line ∈ splitLines a, ended line = true := by
  induction a with
  | nil =>
    intro line hl
    cases hl
  | cons c a ih =>
    have ih := ih ha.tail
    unfold splitLines
    by_cases hc : c = 10
    · rw [if_pos hc]
      intro line hl
      rcases List.mem_cons.1 hl with rfl | hl
      · rfl
      · exact ih line hl
    · rw [if_neg hc]
      cases hl : splitLines a with
      | nil =>
        have ha' : a = [] := by
          by_contra hne
          exact splitLines_ne hne hl
        subst ha'
        rcases ha with ha | ha
        · cases ha
        · simp at ha
          exact absurd ha hc
      | cons first rest =>
        intro line hm
        rw [hl] at ih
        rcases List.mem_cons.1 hm with rfl | hm
        · have hfirst := ih first List.mem_cons_self
          unfold ended at hfirst ⊢
          cases first with
          | nil => simp at hfirst
          | cons d first => simpa using hfirst
        · exact ih line (List.mem_cons_of_mem _ hm)

theorem splitLines_flatten (a : List UInt8) : (splitLines a).flatten = a := by
  induction a with
  | nil => rfl
  | cons c a ih =>
    unfold splitLines
    by_cases hc : c = 10
    · rw [if_pos hc, List.flatten_cons, ih, hc]
      rfl
    · rw [if_neg hc]
      cases hl : splitLines a with
      | nil =>
        rw [hl] at ih
        rw [← ih]
        rfl
      | cons line lines =>
        rw [hl] at ih
        rw [← ih]
        rfl

/-- A tail without a newline is one line, unless it is empty. -/
theorem splitLines_tail (hb : 10 ∉ b) : splitLines b = if b = [] then [] else [b] := by
  induction b with
  | nil => rfl
  | cons c b ih =>
    have hc : c ≠ 10 := fun heq => hb (heq ▸ List.mem_cons_self)
    rw [splitLines, ih fun hm => hb (List.mem_cons_of_mem _ hm), if_neg hc]
    by_cases hbe : b = []
    · simp [hbe]
    · simp [hbe]

/-- A file is some complete lines and a tail. -/
theorem exists_split (bytes : List UInt8) : ∃ head tail, bytes = head ++ tail ∧ Complete head ∧ 10 ∉ tail := by
  induction bytes with
  | nil => exact ⟨[], [], rfl, .inl rfl, by simp⟩
  | cons c bytes ih =>
    obtain ⟨head, tail, rfl, hhead, htail⟩ := ih
    by_cases hne : head = []
    · subst hne
      by_cases hc : c = 10
      · exact ⟨[c], tail, rfl, .inr (by rw [hc]; rfl), htail⟩
      · refine ⟨[], c :: tail, rfl, .inl rfl, fun hm => ?_⟩
        rcases List.mem_cons.1 hm with heq | hm
        · exact hc heq.symm
        · exact htail hm
    · refine ⟨c :: head, tail, rfl, .inr ?_, htail⟩
      rcases hhead with hhead | hhead
      · exact absurd hhead hne
      · cases head with
        | nil => exact absurd rfl hne
        | cons d head => simpa using hhead

/-! ## Scans -/

/-- Lines are fed, the first of which begins at this byte. -/
def feedLines (h : Host) (s : State) (offset : ℕ) : List (List UInt8) → Except Exc State
  | [] => .ok s
  | line :: lines => do
    let s ← feedLine h s offset line
    feedLines h s (offset + line.length) lines

/-- What a scan returns at the tail of a file. -/
def finish (s : State) (offset : ℕ) (tail : List UInt8) : Except Exc (State × Bool × ℕ) :=
  if tail = [] then .ok (s, false, offset)
  else if s.status ≠ .active then .error (.truncatedRecord offset)
  else .ok (s, true, offset)

theorem feedLines_append : feedLines h s offset (lines ++ lines') =
    (feedLines h s offset lines).bind fun s => feedLines h s (offset + lines.flatten.length) lines' := by
  induction lines generalizing s offset with
  | nil => rfl
  | cons line lines ih =>
    show (feedLine h s offset line).bind _ = ((feedLine h s offset line).bind _).bind _
    cases hline : feedLine h s offset line with
    | error e => rfl
    | ok s =>
      show feedLines h s (offset + line.length) (lines ++ lines') = _
      rw [ih, List.flatten_cons, List.length_append, ← Nat.add_assoc]
      rfl

theorem scanLines_ended (hl : ∀ line ∈ lines, ended line = true) : scanLines h s offset (lines ++ lines') =
    (feedLines h s offset lines).bind fun s => scanLines h s (offset + lines.flatten.length) lines' := by
  induction lines generalizing s offset with
  | nil => rfl
  | cons line lines ih =>
    rw [List.cons_append, scanLines, if_pos (hl line List.mem_cons_self)]
    show (feedLine h s offset line).bind _ = ((feedLine h s offset line).bind _).bind _
    cases hline : feedLine h s offset line with
    | error e => rfl
    | ok s =>
      show scanLines h s (offset + line.length) (lines ++ lines') = _
      rw [ih fun x hx => hl x (List.mem_cons_of_mem _ hx), List.flatten_cons, List.length_append, ← Nat.add_assoc]
      rfl

theorem scanLines_tail {tail : List UInt8} (ht : 10 ∉ tail) :
    scanLines h s offset (splitLines tail) = finish s offset tail := by
  rw [splitLines_tail ht]
  unfold finish
  by_cases hte : tail = []
  · rw [if_pos hte, if_pos hte]
    rfl
  · have hend : ended tail = false := by
      unfold ended
      by_contra hlast
      rw [Bool.not_eq_false, decide_eq_true_eq] at hlast
      exact ht (List.mem_of_getLast? hlast)
    rw [if_neg hte, if_neg hte]
    unfold scanLines
    rw [hend]
    rfl

/-- **A scan of complete lines and a tail.** -/
theorem scanLines_split {head tail : List UInt8} (hh : Complete head) (ht : 10 ∉ tail) :
    scanLines h s offset (splitLines (head ++ tail)) =
      (feedLines h s offset (splitLines head)).bind fun s => finish s (offset + head.length) tail := by
  rw [splitLines_append hh, scanLines_ended (splitLines_ended hh), splitLines_flatten]
  congr 1
  funext s
  exact scanLines_tail ht

/-- A summary is that of the first bytes of a file. -/
structure Measured (h : Host) (kind : Kind) (bytes : List UInt8) (s : State) (offset : ℕ) : Prop where
  within : offset ≤ bytes.length
  complete : Complete (bytes.take offset)
  fed : feedLines h (.fresh kind) 0 (splitLines (bytes.take offset)) = .ok s

theorem Measured.start (h : Host) (kind : Kind) (bytes : List UInt8) : Measured h kind bytes (.fresh kind) 0 :=
  ⟨Nat.zero_le _, .inl rfl, rfl⟩

/-- Of a file that has grown, too. -/
theorem Measured.grow {kind : Kind} {bytes bytes' : List UInt8} (hm : Measured h kind bytes s offset)
    (hg : bytes <+: bytes') : Measured h kind bytes' s offset := by
  obtain ⟨more, rfl⟩ := hg
  have htake : (bytes ++ more).take offset = bytes.take offset := List.take_append_of_le_length hm.within
  refine ⟨?_, ?_, ?_⟩
  · have hw := hm.within
    rw [List.length_append]
    omega
  · rw [htake]
    exact hm.complete
  · rw [htake]
    exact hm.fed

/-- What a scan returns, from where an earlier one stopped. -/
theorem scan_measured {kind : Kind} {bytes : List UInt8} {prior : Summary} (hm : Measured h kind bytes prior.state offset) :
    ∃ head tail, bytes = head ++ tail ∧ Complete head ∧ 10 ∉ tail ∧
      scanLines h prior.state offset (splitLines (bytes.drop offset)) =
        (feedLines h (.fresh kind) 0 (splitLines head)).bind fun s => finish s head.length tail := by
  obtain ⟨head, tail, hsplit, hh, ht⟩ := exists_split (bytes.drop offset)
  refine ⟨bytes.take offset ++ head, tail, ?_, hm.complete.append hh, ht, ?_⟩
  · rw [List.append_assoc, ← hsplit, List.take_append_drop]
  · have hlen : (bytes.take offset).length = offset := by
      have hw := hm.within
      rw [List.length_take]
      omega
    rw [hsplit, scanLines_split hh ht, splitLines_append hm.complete, feedLines_append, hm.fed, splitLines_flatten,
      List.length_append, hlen, Nat.zero_add]
    rfl

/-- The complete lines of a file are only one part of it. -/
theorem split_unique {head head' tail tail' : List UInt8} (heq : head ++ tail = head' ++ tail') (hh : Complete head)
    (hh' : Complete head') (ht : 10 ∉ tail) (ht' : 10 ∉ tail') : head = head' ∧ tail = tail' := by
  have key : ∀ {x y u v : List UInt8}, x ++ u = y ++ v → Complete y → 10 ∉ u → y.length ≤ x.length := by
    intro x y u v heq hy hu
    by_contra hlt
    have hlast : y.getLast? = some 10 := by
      rcases hy with rfl | hy
      · simp at hlt
      · exact hy
    obtain ⟨more, hmore⟩ : x <+: y := List.prefix_of_prefix_length_le ⟨u, rfl⟩ (heq ▸ ⟨v, rfl⟩) (by omega)
    have hu' : u = more ++ v := by
      rw [← hmore, List.append_assoc] at heq
      exact List.append_cancel_left heq
    have hne : more ≠ [] := by
      rintro rfl
      rw [List.append_nil] at hmore
      exact hlt (by rw [hmore])
    rw [← hmore, List.getLast?_append_of_ne_nil _ hne] at hlast
    exact hu (hu' ▸ List.mem_append_left _ (List.mem_of_getLast? hlast))
  have hlen : head.length = head'.length := le_antisymm (key heq.symm hh ht') (key heq hh' ht)
  exact List.append_inj heq hlen

/-- **Where an earlier scan stopped, a scan goes on as a scan of the whole file.** -/
theorem scan_resume {kind : Kind} {bytes : List UInt8} {prior : Summary} (hm : Measured h kind bytes prior.state offset) :
    scan h bytes prior offset = scan h bytes (.fresh kind) 0 := by
  obtain ⟨head, tail, hsplit, hh, ht, hscan⟩ := scan_measured hm
  have hstart : Measured h kind bytes (Summary.fresh kind).state 0 := .start h kind bytes
  obtain ⟨head', tail', hsplit', hh', ht', hscan'⟩ := scan_measured hstart
  obtain ⟨rfl, rfl⟩ := split_unique (hsplit.symm.trans hsplit') hh hh' ht ht'
  unfold scan
  rw [hscan, hscan']

theorem finish_ok {tail : List UInt8} {r : State × Bool × ℕ} (hf : finish s offset tail = .ok r) :
    r.1 = s ∧ r.2.2 = offset := by
  unfold finish at hf
  by_cases hte : tail = []
  · rw [if_pos hte] at hf
    cases hf
    exact ⟨rfl, rfl⟩
  · rw [if_neg hte] at hf
    by_cases hact : s.status ≠ .active
    · rw [if_pos hact] at hf
      cases hf
    · rw [if_neg hact] at hf
      cases hf
      exact ⟨rfl, rfl⟩

/-- What a scan returns is measured in its turn. -/
theorem scan_ok {kind : Kind} {bytes : List UInt8} {prior summary : Summary} {offset' : ℕ}
    (hm : Measured h kind bytes prior.state offset) (hs : scan h bytes prior offset = .ok (summary, offset')) :
    Measured h kind bytes summary.state offset' ∧ summary.compactionCount = some summary.state.compactions.length := by
  obtain ⟨head, tail, hsplit, hh, ht, hscan⟩ := scan_measured hm
  unfold scan at hs
  rw [hscan] at hs
  cases hf : feedLines h (.fresh kind) 0 (splitLines head) with
  | error e =>
    rw [hf] at hs
    cases hs
  | ok s =>
    cases hfin : finish s head.length tail with
    | error e =>
      have hbind : (Except.ok s : Except Exc State).bind (fun s => finish s head.length tail) = .error e := hfin
      rw [hf, hbind] at hs
      cases hs
    | ok r =>
      have hbind : (Except.ok s : Except Exc State).bind (fun s => finish s head.length tail) = .ok r := hfin
      rw [hf, hbind] at hs
      obtain ⟨hr, hoffset⟩ := finish_ok hfin
      obtain ⟨s', tailed, o⟩ := r
      cases hs
      dsimp only at hr hoffset
      subst hr hoffset
      have htake : bytes.take head.length = head := by rw [hsplit, List.take_left]
      refine ⟨⟨?_, ?_, ?_⟩, rfl⟩
      · rw [hsplit, List.length_append]
        omega
      · rw [htake]
        exact hh
      · rw [htake]
        exact hf

/-! ## What records change -/

/-- Nothing was completed. -/
structure Calm (s s' : State) : Prop where
  kind : s'.kind = s.kind
  startup : s'.startup = s.startup
  times : s'.completionTimes = s.completionTimes
  count : s'.completionCount = s.completionCount
  compactions : s.compactions <+: s'.compactions

theorem Calm.refl (s : State) : Calm s s := ⟨rfl, rfl, rfl, rfl, List.prefix_rfl⟩

theorem Calm.trans {s₁ s₂ s₃ : State} (h₁ : Calm s₁ s₂) (h₂ : Calm s₂ s₃) : Calm s₁ s₃ :=
  ⟨h₂.kind.trans h₁.kind, h₂.startup.trans h₁.startup, h₂.times.trans h₁.times, h₂.count.trans h₁.count,
    h₁.compactions.trans h₂.compactions⟩

namespace State

theorem identity_calm (s : State) (v : Json) : Calm s (s.identity v) := by
  unfold identity
  split
  · exact .refl s
  · split
    · exact ⟨rfl, rfl, rfl, rfl, List.prefix_rfl⟩
    · split
      · exact ⟨rfl, rfl, rfl, rfl, List.prefix_rfl⟩
      · exact .refl s

theorem activity_calm (s : State) (v : Json) : Calm s (s.activity v) := by
  unfold activity
  split
  · exact .refl s
  · split
    · exact ⟨rfl, rfl, rfl, rfl, List.prefix_rfl⟩
    · exact .refl s

theorem window_calm (s : State) (v : Json) : Calm s (s.window v) := by
  unfold window
  split
  · exact .refl s
  · split
    · exact ⟨rfl, rfl, rfl, rfl, List.prefix_rfl⟩
    · split
      · exact ⟨rfl, rfl, rfl, rfl, List.prefix_rfl⟩
      · split
        · exact ⟨rfl, rfl, rfl, rfl, List.prefix_rfl⟩
        · exact .refl s

theorem codexUsage_calm (s : State) (v : Json) : Calm s (s.codexUsage v) := by
  unfold codexUsage
  dsimp only
  split
  · exact .refl s
  · split
    · split
      · exact ⟨rfl, rfl, rfl, rfl, List.prefix_rfl⟩
      · exact ⟨rfl, rfl, rfl, rfl, List.prefix_rfl⟩
    · exact ⟨rfl, rfl, rfl, rfl, List.prefix_rfl⟩

theorem claudeUsage_calm (s : State) (v : Json) : Calm s (s.claudeUsage v) := by
  unfold claudeUsage
  dsimp only
  split
  · exact ⟨rfl, rfl, rfl, rfl, List.prefix_rfl⟩
  · split
    · exact ⟨rfl, rfl, rfl, rfl, List.prefix_rfl⟩
    · exact ⟨rfl, rfl, rfl, rfl, List.prefix_rfl⟩

theorem compaction_calm (s : State) (time pre post trigger : Json) : Calm s (s.compaction time pre post trigger) :=
  ⟨rfl, rfl, rfl, rfl, List.prefix_append _ _⟩

/-- A record was fed: it completed something, or not. -/
structure Fed (s s' : State) : Prop where
  kind : s'.kind = s.kind
  startup : s'.startup = s.startup
  completes : (s'.completionTimes = s.completionTimes ∧ s'.completionCount = s.completionCount) ∨
    ∃ time, s'.completionTimes = s.completionTimes ++ [time] ∧ s'.completionCount = s.completionCount + 1
  compactions : s.compactions <+: s'.compactions

theorem Fed.calm {s s' : State} (hc : Calm s s') : Fed s s' :=
  ⟨hc.kind, hc.startup, .inl ⟨hc.times, hc.count⟩, hc.compactions⟩

theorem Fed.after {s₁ s₂ s₃ : State} (hc : Calm s₁ s₂) (hf : Fed s₂ s₃) : Fed s₁ s₃ := by
  refine ⟨hf.kind.trans hc.kind, hf.startup.trans hc.startup, ?_, hc.compactions.trans hf.compactions⟩
  rw [← hc.times, ← hc.count]
  exact hf.completes

theorem Fed.complete {s s' : State} (hc : Calm s s') (time : Json) : Fed s (s'.completed time) := by
  refine ⟨hc.kind, hc.startup, .inr ⟨time, ?_, ?_⟩, hc.compactions⟩
  · rw [← hc.times]
    rfl
  · rw [← hc.count]
    rfl

theorem codexEvent_fed {record payload : Json} {s s' : State} (hs : s.codexEvent record payload = .ok s') :
    Fed s s' := by
  unfold codexEvent at hs
  dsimp only at hs
  split at hs
  · cases hs
    have hstart : Calm s { s with status := .active, activeTurnId := payload.get "turn_id" } :=
      ⟨rfl, rfl, rfl, rfl, List.prefix_rfl⟩
    exact .calm (hstart.trans (window_calm _ _))
  split at hs
  · split at hs
    · cases hs
    split at hs
    · cases hs
      have hdone : Calm s { s with status := .complete, activeTurnId := .null } := ⟨rfl, rfl, rfl, rfl, List.prefix_rfl⟩
      exact .complete hdone _
    · cases hs
      exact .calm (.refl s)
  · obtain ⟨aborted, -, hs⟩ := bind_ok hs
    split at hs
    · cases hs
      exact .calm ⟨rfl, rfl, rfl, rfl, List.prefix_rfl⟩
    split at hs
    · split at hs
      · cases hs
        exact .calm ((codexUsage_calm _ _).trans (window_calm _ _))
      · cases hs
        exact .calm (.refl s)
    split at hs
    · cases hs
      have hcompacted : Calm s (if s.lastCodexCompaction then s
          else s.compaction (record.get "timestamp") .null .null .null) := by
        split
        · exact .refl s
        · exact compaction_calm _ _ _ _ _
      exact .calm (hcompacted.trans ⟨rfl, rfl, rfl, rfl, List.prefix_rfl⟩)
    · cases hs
      exact .calm (.refl s)

theorem codexRecord_fed {record payload : Json} {s s' : State} (hs : s.codexRecord record payload = .ok s') :
    Fed s s' := by
  unfold codexRecord at hs
  dsimp only at hs
  split at hs
  · cases hs
    exact .calm (window_calm _ _)
  split at hs
  · cases hs
    refine .calm ?_
    split <;> exact ⟨rfl, rfl, rfl, rfl, List.prefix_rfl⟩
  split at hs
  · cases hs
    exact .calm (codexUsage_calm _ _)
  split at hs
  · obtain ⟨prior, -, hs⟩ := bind_ok hs
    obtain ⟨usage, -, hs⟩ := bind_ok hs
    cases hs
    exact .calm ((compaction_calm s (record.get "timestamp") (usage.get "input_tokens") .null .null).trans
      ⟨rfl, rfl, rfl, rfl, List.prefix_rfl⟩)
  split at hs
  · exact codexEvent_fed hs
  · cases hs
    exact .calm (.refl s)

theorem responded_calm (s : State) (digest : Str) : Calm s (s.responded digest) := by
  unfold responded
  split
  · exact .refl s
  · exact ⟨rfl, rfl, rfl, rfl, List.prefix_rfl⟩

theorem described_calm (s : State) (record message : Json) : Calm s (s.described record message) := by
  unfold described
  dsimp only
  refine Calm.trans ?_ (claudeUsage_calm _ _)
  split <;> exact ⟨rfl, rfl, rfl, rfl, List.prefix_rfl⟩

theorem stopped_fed (s : State) (record message : Json) (digest : Str) : Fed s (s.stopped record message digest) := by
  unfold stopped
  dsimp only
  generalize hstatus : (if isText (message.get "stop_reason") "end_turn" = true then Status.complete
    else if isText (message.get "stop_reason") "tool_use" = true then Status.active else Status.unknown) = status
  split
  · have hstopped : Calm s { s with
        status := status, completedResponseHashes := s.completedResponseHashes ++ [digest] } :=
      ⟨rfl, rfl, rfl, rfl, List.prefix_rfl⟩
    exact .complete hstopped _
  · exact .calm ⟨rfl, rfl, rfl, rfl, List.prefix_rfl⟩

theorem claudeRecord_fed {record : Json} {s s' : State} (hs : s.claudeRecord h record = .ok s') : Fed s s' := by
  unfold claudeRecord at hs
  dsimp only at hs
  split at hs
  · cases hs
    exact .calm ⟨rfl, rfl, rfl, rfl, List.prefix_rfl⟩
  split at hs
  · split at hs
    · cases hs
      exact .calm (.refl s)
    split at hs
    · cases hs
      exact .calm ⟨rfl, rfl, rfl, rfl, List.prefix_rfl⟩
    split at hs
    · cases hs
      unfold claudeResponse
      split
      · exact .calm (.refl s)
      · exact .after ((responded_calm s _).trans (described_calm _ _ _)) (stopped_fed _ _ _ _)
    · cases hs
  split at hs
  · split at hs
    · obtain ⟨metadata, -, hs⟩ := bind_ok hs
      cases hs
      exact .calm ((compaction_calm s _ _ _ _).trans ⟨rfl, rfl, rfl, rfl, List.prefix_rfl⟩)
    · obtain ⟨failed, -, hs⟩ := bind_ok hs
      cases hs
      refine .calm ?_
      split
      · exact ⟨rfl, rfl, rfl, rfl, List.prefix_rfl⟩
      · exact .refl s
  · cases hs
    exact .calm (.refl s)

theorem feedKind_fed {record : Json} {s s' : State} (hs : s.feedKind h record = .ok s') : Fed s s' := by
  unfold feedKind at hs
  split at hs
  · unfold feedCodex at hs
    dsimp only at hs
    split at hs
    · cases hs
      exact .calm (.refl _)
    · exact .after (identity_calm _ _) (codexRecord_fed hs)
  · exact .after (identity_calm _ _) (claudeRecord_fed hs)

/-- What a record does to the completions, and to the startup. -/
theorem feed_fed {record : Json} {s s' : State} (hs : s.feed h record = .ok s') :
    ∃ s₁, Fed s s₁ ∧ s' = if s.completionCount = 0 ∧ s₁.completionCount = 1 then { s₁ with startup := s₁.costs } else s₁ := by
  unfold feed at hs
  split at hs
  · cases hs
  obtain ⟨s₁, hfed, hs⟩ := bind_ok hs
  cases hs
  exact ⟨s₁, .after (activity_calm s (record.get "timestamp")) (feedKind_fed hfed), rfl⟩

end State

/-! ## The startup -/

/-- What is known once some records were fed. -/
structure Known (s : State) : Prop where
  times : s.completionTimes.length = s.completionCount
  none : s.completionCount = 0 → s.startup = .none

theorem Known.fresh (kind : Kind) : Known (.fresh kind) := ⟨rfl, fun _ => rfl⟩

/-- What one record does: the startup is measured when the completions become one, and never else. -/
theorem feed_startup {record : Json} (hs : s.feed h record = .ok s') (hk : Known s) :
    Known s' ∧ s'.kind = s.kind ∧ s.compactions <+: s'.compactions ∧ s.completionTimes <+: s'.completionTimes ∧
      ((s.completionCount = 0 ∧ s'.completionCount = 1 ∧ s'.startup = s'.costs) ∨
        (s'.startup = s.startup ∧ (s'.completionCount = 0 ↔ s.completionCount = 0))) := by
  obtain ⟨s₁, hfed, rfl⟩ := State.feed_fed hs
  have htimes : s₁.completionTimes.length = s₁.completionCount ∧ s.completionTimes <+: s₁.completionTimes ∧
      (s₁.completionCount = s.completionCount ∨ s₁.completionCount = s.completionCount + 1) := by
    have hlen := hk.times
    rcases hfed.completes with ⟨ht, hc⟩ | ⟨time, ht, hc⟩
    · rw [ht, hc]
      exact ⟨hlen, List.prefix_rfl, .inl rfl⟩
    · rw [ht, hc, List.length_append, hlen]
      exact ⟨rfl, List.prefix_append _ _, .inr rfl⟩
  obtain ⟨hlen, hprefix, hcount⟩ := htimes
  by_cases hfirst : s.completionCount = 0 ∧ s₁.completionCount = 1
  · rw [if_pos hfirst]
    refine ⟨⟨hlen, fun h0 => ?_⟩, hfed.kind, hfed.compactions, hprefix, .inl ⟨hfirst.1, hfirst.2, rfl⟩⟩
    have h1 := hfirst.2
    dsimp only at h0
    omega
  · rw [if_neg hfirst]
    have hzero : s₁.completionCount = 0 ↔ s.completionCount = 0 := by omega
    refine ⟨⟨hlen, fun h0 => ?_⟩, hfed.kind, hfed.compactions, hprefix, .inr ⟨hfed.startup, hzero⟩⟩
    rw [hfed.startup]
    exact hk.none (hzero.1 h0)

/-- **The startup of some lines**: what was measured at the line that completed the first turn, if one did. -/
def StartupOf (h : Host) (kind : Kind) (lines : List (List UInt8)) (startup : Startup) (count : ℕ) : Prop :=
  (count = 0 ∧ startup = .none) ∨
    ∃ earlier line later before after, lines = earlier ++ line :: later ∧
      feedLines h (.fresh kind) 0 earlier = .ok before ∧ before.completionCount = 0 ∧
      feedLine h before earlier.flatten.length line = .ok after ∧ after.completionCount = 1 ∧ startup = after.costs

theorem feedLine_ok {start : ℕ} {line : List UInt8} (hl : feedLine h s start line = .ok s') :
    ∃ record, h.loads line = .ok record ∧ s.feed h record = .ok s' := by
  unfold feedLine at hl
  split at hl
  · cases hl
  · cases hl
  · exact ⟨_, ‹_›, hl⟩

/-- What is known of a state that lines were fed to. -/
structure FedBy (h : Host) (kind : Kind) (lines : List (List UInt8)) (s : State) : Prop where
  known : Known s
  sameKind : s.kind = kind
  startup : StartupOf h kind lines s.startup s.completionCount

theorem feedLines_fedBy {kind : Kind} (hl : feedLines h (.fresh kind) 0 lines = .ok s) : FedBy h kind lines s := by
  induction lines using List.reverseRecOn generalizing s with
  | nil =>
    cases hl
    exact ⟨.fresh kind, rfl, .inl ⟨rfl, rfl⟩⟩
  | append_singleton lines line ih =>
    rw [feedLines_append] at hl
    cases hb : feedLines h (.fresh kind) 0 lines with
    | error e =>
      rw [hb] at hl
      cases hl
    | ok before =>
      rw [hb] at hl
      obtain ⟨hknown, hkind, hstartup⟩ := ih hb
      obtain ⟨after, hline, hl⟩ := bind_ok (show (feedLine h before _ line >>= fun s => feedLines h s _ []) = _ from hl)
      cases hl
      obtain ⟨record, -, hfeed⟩ := feedLine_ok hline
      obtain ⟨hk, hkd, -, -, hst⟩ := feed_startup hfeed hknown
      refine ⟨hk, hkd.trans hkind, ?_⟩
      rcases hst with ⟨h0, h1, hcosts⟩ | ⟨hsame, hzero⟩
      · rw [Nat.zero_add] at hline
        exact .inr ⟨lines, line, [], before, s, rfl, hb, h0, hline, h1, hcosts⟩
      · rw [hsame]
        rcases hstartup with ⟨h0, hnone⟩ | ⟨earlier, first, later, b, a, heq, hrest⟩
        · exact .inl ⟨hzero.2 h0, hnone⟩
        · refine .inr ⟨earlier, first, later ++ [line], b, a, ?_, hrest⟩
          rw [heq, List.append_assoc]
          rfl

theorem scanLines_known {r : State × Bool × ℕ} (hs : scanLines h s offset lines = .ok r) (hk : Known s) :
    Known r.1 ∧ s.completionTimes <+: r.1.completionTimes ∧ s.compactions <+: r.1.compactions := by
  induction lines generalizing s offset with
  | nil =>
    cases hs
    exact ⟨hk, List.prefix_rfl, List.prefix_rfl⟩
  | cons line lines ih =>
    unfold scanLines at hs
    split at hs
    · obtain ⟨s₁, hline, hs⟩ := bind_ok hs
      obtain ⟨record, -, hfeed⟩ := feedLine_ok hline
      obtain ⟨hk₁, -, hcompactions, htimes, -⟩ := feed_startup hfeed hk
      obtain ⟨hk', htimes', hcompactions'⟩ := ih hs hk₁
      exact ⟨hk', htimes.trans htimes', hcompactions.trans hcompactions'⟩
    · split at hs
      · cases hs
      · cases hs
        exact ⟨hk, List.prefix_rfl, List.prefix_rfl⟩

/-- What any scan keeps, from any offset. -/
theorem scan_known {bytes : List UInt8} {prior : Summary} {r : Summary × ℕ} (hs : scan h bytes prior offset = .ok r)
    (hk : Known prior.state) : Known r.1.state ∧ prior.state.completionTimes <+: r.1.state.completionTimes ∧
      prior.state.compactions <+: r.1.state.compactions ∧
      r.1.compactionCount = some r.1.state.compactions.length := by
  unfold scan at hs
  obtain ⟨⟨s, tailed, o⟩, hlines, hs⟩ := bind_ok hs
  cases hs
  obtain ⟨hk', htimes, hcompactions⟩ := scanLines_known hlines hk
  exact ⟨hk', htimes, hcompactions, rfl⟩

end Watch

end Arhugula
