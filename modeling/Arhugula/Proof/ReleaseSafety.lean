import Mathlib.Algebra.Order.Ring.Rat
import Arhugula.Spec.SelectionFacts

/-!
# Where the release rules agree

`released` asks that a unit has a human gate and that its gates are closed; `Preparation.admit` asks for the comment,
too, that one of them closed on. That comment is the last that was made before the closure, the first of those that were
made last (`Closes`), and has to be told by its id: a comment is accepted for a unit that is released, where a gate
closed on it (`accepted_iff`).

An export may have an id twice. A gate that closed on such a comment releases the unit, and no release can be cited.
-/

namespace Arhugula

namespace SelectionFacts

open Strings Lit Loop

variable {H : Type} {h : Loop.Host H} {data : Export} {unit : Text} {p : Preparation} {c d : Lit.Comment}
  {cs : List Lit.Comment} {gate : Issue} {g : Text}

/-- A check that does not raise. -/
theorem guard_ok {ε α : Type} {b : Bool} {e : ε} {f : PUnit → Except ε α} {x : α} :
    (if b = true then (throw e >>= f : Except ε α) else f ⟨⟩) = .ok x ↔ b = false ∧ f ⟨⟩ = .ok x := by
  cases b with
  | false => simp
  | true =>
    constructor
    · intro hx
      cases hx
    · rintro ⟨hb, -⟩
      cases hb

/-! ## Gates -/

/-- A human gate that a unit inherits. -/
structure Inherits (data : Export) (unit : Text) (gate : Issue) : Prop where
  prerequisite : gate.id ∈ prerequisites data unit
  issue : issueOf data gate.id = some gate
  human : isGate gate = true

theorem issueOf_id (hg : issueOf data g = some gate) : gate.id = g := by
  unfold issueOf at hg
  have hid := List.find?_some hg
  exact of_decide_eq_true hid

/-- The prerequisites are issues whose labels can be read. -/
def Readable (data : Export) (unit : Text) : Prop :=
  ∀ g ∈ prerequisites data unit, ∃ gate, issueOf data g = some gate ∧ gateLabel gate ≠ none

theorem readable_iff :
    ((prerequisites data unit).any fun g => ((issueOf data g).bind gateLabel).isNone) = false ↔ Readable data unit := by
  rw [List.any_eq_false]
  constructor
  · intro hall g hg
    have hnone := hall g hg
    cases hi : issueOf data g with
    | none =>
      rw [hi] at hnone
      exact absurd rfl hnone
    | some gate =>
      refine ⟨gate, rfl, ?_⟩
      intro hlabel
      rw [hi, Option.bind_some, hlabel] at hnone
      exact hnone rfl
  · intro hread g hg hnone
    obtain ⟨gate, hi, hlabel⟩ := hread g hg
    rw [hi, Option.bind_some, Option.isNone_iff_eq_none] at hnone
    exact hlabel hnone

/-- The ids of the gates that are found. -/
def gatesOf (data : Export) (unit : Text) : List Text :=
  (prerequisites data unit).filter fun g => (issueOf data g).any isGate

theorem mem_gatesOf : g ∈ gatesOf data unit ↔ ∃ gate, gate.id = g ∧ Inherits data unit gate := by
  unfold gatesOf
  rw [List.mem_filter, Option.any_eq_true]
  constructor
  · rintro ⟨hg, gate, hi, hgate⟩
    obtain rfl := issueOf_id hi
    exact ⟨gate, rfl, hg, hi, hgate⟩
  · rintro ⟨gate, rfl, hi⟩
    exact ⟨hi.prerequisite, gate, hi.issue, hi.human⟩

/-- **When a unit is released**: it inherits a human gate, and each that it inherits is closed. -/
theorem released_iff :
    released data unit = .ok true ↔
      Readable data unit ∧ (∃ gate, Inherits data unit gate) ∧ ∀ gate, Inherits data unit gate → gate.isClosed = true := by
  have hclosed : (∀ gate, Inherits data unit gate → gate.isClosed = true) ↔
      ∀ g ∈ gatesOf data unit, (issueOf data g).any Issue.isClosed = true := by
    constructor
    · intro hall g hg
      obtain ⟨gate, rfl, hi⟩ := mem_gatesOf.1 hg
      rw [hi.issue]
      exact hall gate hi
    · intro hall gate hi
      have hany := hall gate.id (mem_gatesOf.2 ⟨gate, rfl, hi⟩)
      rw [hi.issue] at hany
      exact hany
  have hsome : (∃ gate, Inherits data unit gate) ↔ gatesOf data unit ≠ [] := by
    constructor
    · rintro ⟨gate, hi⟩
      exact List.ne_nil_of_mem (mem_gatesOf.2 ⟨gate, rfl, hi⟩)
    · intro hne
      obtain ⟨g, hg⟩ := List.exists_mem_of_ne_nil _ hne
      obtain ⟨gate, -, hi⟩ := mem_gatesOf.1 hg
      exact ⟨gate, hi⟩
  rw [← readable_iff, hclosed, hsome]
  unfold released
  dsimp only
  rw [guard_ok, guard_ok]
  change _ ∧ ((gatesOf data unit).any fun g => ((issueOf data g).bind Issue.status).isNone) = false ∧
    Except.ok (!(gatesOf data unit).isEmpty && (gatesOf data unit).all fun g => (issueOf data g).any Issue.isClosed) =
      .ok true ↔ _
  rw [Except.ok.injEq, Bool.and_eq_true, Bool.not_eq_true', List.isEmpty_eq_false_iff, List.all_eq_true]
  constructor
  · rintro ⟨hread, -, hne, hall⟩
    exact ⟨hread, hne, hall⟩
  · rintro ⟨hread, hne, hall⟩
    refine ⟨hread, ?_, hne, hall⟩
    -- what is closed has a status
    rw [List.any_eq_false]
    intro g hg hnone
    obtain ⟨gate, hi, hclosed⟩ := (Option.any_eq_true _ _).1 (hall g hg)
    rw [hi, Option.bind_some, Option.isNone_iff_eq_none] at hnone
    unfold Issue.isClosed at hclosed
    rw [hnone] at hclosed
    exact absurd hclosed (by decide)

/-! ## The record a gate closed on -/

/-- The comment was made on the gate, not later than its closure. -/
def OnTime (h : Loop.Host H) (gate : Issue) (c : Lit.Comment) : Prop :=
  c.issueId = gate.id ∧ ∃ t closed, h.time c.fields "created_at" = some t ∧ h.time gate.fields "closed_at" = some closed ∧
    t.aware = closed.aware ∧ t.seconds ≤ closed.seconds

/-- One comment was made before another. -/
def Before (h : Loop.Host H) (c d : Lit.Comment) : Prop :=
  isBefore (h.time c.fields "created_at") (h.time d.fields "created_at") = true

/-- The times of the comments on a gate can be compared with that of its closure. -/
def Comparable (h : Loop.Host H) (data : Export) (gate : Issue) : Prop :=
  ∀ c ∈ data.comments, c.issueId = gate.id →
    comparable (h.time c.fields "created_at") (h.time gate.fields "closed_at") = true

/-- The first of those that were made last: the ones before it were made before, and none behind it later. -/
def IsLast (h : Loop.Host H) (cs : List Lit.Comment) (c : Lit.Comment) : Prop :=
  ∃ earlier later, cs = earlier ++ c :: later ∧ (∀ d ∈ earlier, Before h d c) ∧ ∀ d ∈ later, ¬ Before h c d

open Classical in
/-- **A gate closed on a comment**: its times can be compared, the comment is the last of those that were made on time,
and its id is a text that no other comment has. -/
structure Closes (h : Loop.Host H) (data : Export) (gate : Issue) (c : Lit.Comment) : Prop where
  comparable : Comparable h data gate
  last : IsLast h (data.comments.filter fun d => OnTime h gate d) c
  unique : (data.comments.filter fun d => d.id = c.id) = [c]
  named : c.id ≠ []

theorem mem_recordedBy (hc : Comparable h data gate) :
    c ∈ recordedBy h data gate ↔ c ∈ data.comments ∧ OnTime h gate c := by
  unfold recordedBy OnTime
  rw [List.mem_filter, Bool.and_eq_true, decide_eq_true_eq]
  constructor
  · rintro ⟨hmem, hon, hle⟩
    refine ⟨hmem, hon, ?_⟩
    have hcomparable := hc c hmem hon
    cases ht : h.time c.fields "created_at" with
    | none =>
      rw [ht] at hcomparable
      cases hcomparable
    | some t =>
      cases hclosed : h.time gate.fields "closed_at" with
      | none =>
        rw [ht, hclosed] at hcomparable
        cases hcomparable
      | some closed =>
        rw [ht, hclosed] at hcomparable hle
        refine ⟨t, closed, rfl, rfl, of_decide_eq_true hcomparable, ?_⟩
        have hnot : ¬ closed.seconds < t.seconds := by simpa [isBefore] using hle
        exact not_lt.1 hnot
  · rintro ⟨hmem, hon, t, closed, ht, hclosed, -, hle⟩
    refine ⟨hmem, hon, ?_⟩
    rw [ht, hclosed]
    have hnot : ¬ closed.seconds < t.seconds := not_lt.2 hle
    simpa [isBefore] using hnot

theorem Before.of_not {e : Lit.Comment} (hcd : Before h c d) (hde : ¬ Before h e d)
    (he : ∃ t, h.time e.fields "created_at" = some t) : Before h c e := by
  obtain ⟨t, ht⟩ := he
  unfold Before isBefore at *
  cases hc : h.time c.fields "created_at" with
  | none =>
    rw [hc] at hcd
    cases hcd
  | some a =>
    cases hd : h.time d.fields "created_at" with
    | none =>
      rw [hc, hd] at hcd
      cases hcd
    | some b =>
      rw [hc, hd] at hcd
      rw [ht, hd] at hde
      rw [ht]
      have hab : a.seconds < b.seconds := of_decide_eq_true hcd
      have hbt : ¬ t.seconds < b.seconds := fun hlt => hde (decide_eq_true hlt)
      exact decide_eq_true (hab.trans_le (not_lt.1 hbt))

theorem Before.asymm (hcd : Before h c d) : ¬ Before h d c := by
  intro hdc
  unfold Before isBefore at *
  cases hc : h.time c.fields "created_at" with
  | none =>
    rw [hc] at hcd
    cases hcd
  | some a =>
    cases hd : h.time d.fields "created_at" with
    | none =>
      rw [hc, hd] at hcd
      cases hcd
    | some b =>
      rw [hc, hd] at hcd hdc
      have hab : a.seconds < b.seconds := of_decide_eq_true hcd
      have hba : b.seconds < a.seconds := of_decide_eq_true hdc
      exact lt_asymm hab hba

theorem latest_cons_none (hl : latest h cs = none) : latest h (c :: cs) = some c := by
  unfold latest
  rw [hl]

theorem latest_cons_later (hl : latest h cs = some d) (hb : Before h c d) : latest h (c :: cs) = some d := by
  unfold latest
  rw [hl]
  exact if_pos hb

theorem latest_cons_first (hl : latest h cs = some d) (hb : ¬ Before h c d) : latest h (c :: cs) = some c := by
  unfold latest
  rw [hl]
  exact if_neg hb

theorem latest_eq_none (hl : latest h cs = none) : cs = [] := by
  cases cs with
  | nil => rfl
  | cons a cs =>
    cases hcs : latest h cs with
    | none =>
      rw [latest_cons_none hcs] at hl
      cases hl
    | some d =>
      by_cases hb : Before h a d
      · rw [latest_cons_later hcs hb] at hl
        cases hl
      · rw [latest_cons_first hcs hb] at hl
        cases hl

/-- **`max` finds the first of the greatest.** -/
theorem isLast_latest (ht : ∀ d ∈ cs, ∃ t, h.time d.fields "created_at" = some t) (hl : latest h cs = some c) :
    IsLast h cs c := by
  induction cs generalizing c with
  | nil => cases hl
  | cons a cs ih =>
    have hrest : ∀ d ∈ cs, ∃ t, h.time d.fields "created_at" = some t := fun d hd => ht d (List.mem_cons_of_mem _ hd)
    cases hcs : latest h cs with
    | none =>
      rw [latest_cons_none hcs] at hl
      cases hl
      rw [latest_eq_none hcs]
      exact ⟨[], [], rfl, fun d hd => (by cases hd), fun d hd => (by cases hd)⟩
    | some d =>
      obtain ⟨earlier, later, heq, hearlier, hlater⟩ := ih hrest hcs
      have hd : ∃ t, h.time d.fields "created_at" = some t := by
        apply hrest
        rw [heq]
        simp
      by_cases hb : Before h a d
      · rw [latest_cons_later hcs hb] at hl
        cases hl
        refine ⟨a :: earlier, later, by rw [heq]; rfl, ?_, hlater⟩
        intro x hx
        rcases List.mem_cons.1 hx with rfl | hmem
        · exact hb
        · exact hearlier x hmem
      · rw [latest_cons_first hcs hb] at hl
        cases hl
        -- what is later than the first one is later than the last of the rest
        refine ⟨[], cs, rfl, fun x hx => (by cases hx), ?_⟩
        intro x hx hax
        apply hb
        rw [heq] at hx
        rcases List.mem_append.1 hx with hx | hx
        · exact hax.of_not (hearlier x hx).asymm hd
        · rcases List.mem_cons.1 hx with rfl | hx
          · exact hax
          · exact hax.of_not (hlater x hx) hd

theorem latest_of_isLast (hl : IsLast h cs c) : latest h cs = some c := by
  obtain ⟨earlier, later, rfl, hearlier, hlater⟩ := hl
  induction earlier with
  | nil =>
    cases hcs : latest h later with
    | none => exact latest_cons_none hcs
    | some d =>
      have hmem : d ∈ later := by
        clear hlater
        induction later generalizing d with
        | nil => cases hcs
        | cons x later ih =>
          cases hx : latest h later with
          | none =>
            rw [latest_cons_none hx] at hcs
            cases hcs
            exact List.mem_cons_self
          | some y =>
            by_cases hb : Before h x y
            · rw [latest_cons_later hx hb] at hcs
              cases hcs
              exact List.mem_cons_of_mem _ (ih _ hx)
            · rw [latest_cons_first hx hb] at hcs
              cases hcs
              exact List.mem_cons_self
      exact latest_cons_first hcs (hlater d hmem)
  | cons a earlier ih =>
    have hrest := ih fun d hd => hearlier d (List.mem_cons_of_mem _ hd)
    exact latest_cons_later hrest (hearlier a List.mem_cons_self)

/-! ## The release -/

theorem recordedBy_eq (hc : Comparable h data gate) [DecidablePred (OnTime h gate)] :
    recordedBy h data gate = data.comments.filter fun d => OnTime h gate d := by
  unfold recordedBy
  apply List.filter_congr
  intro d hd
  have hmem := mem_recordedBy (c := d) hc
  unfold recordedBy at hmem
  rw [List.mem_filter] at hmem
  rw [Bool.eq_iff_iff, decide_eq_true_eq]
  constructor
  · intro hb
    exact (hmem.1 ⟨hd, hb⟩).2
  · intro ho
    exact (hmem.2 ⟨hd, ho⟩).2

theorem recordedBy_timed (hc : Comparable h data gate) :
    ∀ d ∈ recordedBy h data gate, ∃ t, h.time d.fields "created_at" = some t := by
  intro d hd
  obtain ⟨-, -, t, -, ht, -⟩ := (mem_recordedBy hc).1 hd
  exact ⟨t, ht⟩

theorem comparable_iff :
    ((data.comments.filter fun d => d.issueId = gate.id).any fun d =>
      !comparable (h.time d.fields "created_at") (h.time gate.fields "closed_at")) = false ↔ Comparable h data gate := by
  rw [List.any_eq_false]
  constructor
  · intro hall d hd hon
    have hcomparable := hall d (List.mem_filter.2 ⟨hd, decide_eq_true hon⟩)
    rwa [Bool.not_eq_true', Bool.not_eq_false] at hcomparable
  · intro hall d hd
    obtain ⟨hmem, hon⟩ := List.mem_filter.1 hd
    rw [Bool.not_eq_true', Bool.not_eq_false]
    exact hall d hmem (of_decide_eq_true hon)

/-- What a gate closed on is among its comments that were made on time. -/
theorem Closes.recorded (hc : Closes h data gate c) :
    latest h (recordedBy h data gate) = some c ∧ c ∈ data.comments ∧ c.issueId = gate.id := by
  classical
  have hlast : IsLast h (recordedBy h data gate) c := by
    rw [recordedBy_eq hc.comparable]
    exact hc.last
  have hmem : c ∈ recordedBy h data gate := by
    obtain ⟨earlier, later, heq, -⟩ := hlast
    rw [heq]
    simp
  obtain ⟨hin, hon, -⟩ := (mem_recordedBy hc.comparable).1 hmem
  exact ⟨latest_of_isLast hlast, hin, hon⟩

theorem mem_singleton_of_filter {q : Lit.Comment → Bool} (hf : data.comments.filter q = [c]) (hd : d ∈ data.comments)
    (hq : q d = true) : d = c := by
  have hmem : d ∈ data.comments.filter q := List.mem_filter.2 ⟨hd, hq⟩
  rw [hf] at hmem
  exact List.mem_singleton.1 hmem

/-- What is cited is what a gate closed on. -/
theorem closes_of_latest (hunique : (data.comments.filter fun d => d.id = p.release) = [c])
    (hc : Comparable h data gate) (hl : (latest h (recordedBy h data gate)).map Lit.Comment.id = some p.release) :
    Closes h data gate c ∧ p.release = c.id := by
  classical
  obtain ⟨d, hd, hid⟩ := Option.map_eq_some_iff.1 hl
  have hlast := isLast_latest (recordedBy_timed hc) hd
  have hmem : d ∈ recordedBy h data gate := by
    obtain ⟨earlier, later, heq, -⟩ := hlast
    rw [heq]
    simp
  obtain rfl := mem_singleton_of_filter hunique ((mem_recordedBy hc).1 hmem).1 (decide_eq_true hid)
  rw [recordedBy_eq hc] at hlast
  refine ⟨⟨hc, hlast, ?_, ?_⟩, hid.symm⟩
  · rw [hid]
    exact hunique
  · rw [hid]
    exact p.released

/-- **Which release is accepted**: one that a gate of a released unit closed on. -/
theorem admits_iff :
    p.admits h data unit = .ok () ↔ released data unit = .ok true ∧
      ∃ gate c, Inherits data unit gate ∧ Closes h data gate c ∧ p.release = c.id := by
  have hheld : ((gatesOf data unit).any fun g => !(issueOf data g).any Issue.isClosed) = false ↔
      ∀ gate, Inherits data unit gate → gate.isClosed = true := by
    rw [List.any_eq_false]
    constructor
    · intro hall gate hi
      have hclosed := hall gate.id (mem_gatesOf.2 ⟨gate, rfl, hi⟩)
      rw [hi.issue, Bool.not_eq_true', Bool.not_eq_false] at hclosed
      exact hclosed
    · intro hall g hg
      obtain ⟨gate, rfl, hi⟩ := mem_gatesOf.1 hg
      rw [hi.issue, Bool.not_eq_true', Bool.not_eq_false]
      exact hall gate hi
  rw [released_iff, ← readable_iff, ← hheld]
  unfold Preparation.admits
  dsimp only
  rw [guard_ok, guard_ok]
  constructor
  · rintro ⟨hread, hclosed, hcited⟩
    cases hf : data.comments.filter fun d => decide (d.id = p.release) with
    | nil =>
      rw [hf] at hcited
      cases hcited
    | cons c rest =>
      rw [hf] at hcited
      cases rest with
      | cons c' rest => cases hcited
      | nil =>
        dsimp only at hcited
        split at hcited
        · cases hcited
        · rename_i hgate
          rw [Bool.not_eq_true', Bool.not_eq_false, List.contains_iff_mem] at hgate
          obtain ⟨gate, hid, hi⟩ := mem_gatesOf.1 hgate
          have hissue : issueOf data c.issueId = some gate := hid ▸ hi.issue
          rw [hissue] at hcited
          dsimp only at hcited
          split at hcited
          · cases hcited
          · rename_i hcomparable
            split at hcited
            · cases hcited
            · rename_i hlast
              obtain ⟨hcloses, hrelease⟩ :=
                closes_of_latest hf (comparable_iff.1 (Bool.eq_false_iff.2 hcomparable)) (not_not.1 hlast)
              exact ⟨⟨hread, ⟨gate, hi⟩, hclosed⟩, gate, c, hi, hcloses, hrelease⟩
  · rintro ⟨⟨hread, -, hclosed⟩, gate, c, hi, hcloses, hrelease⟩
    obtain ⟨hlatest, -, hon⟩ := hcloses.recorded
    refine ⟨hread, hclosed, ?_⟩
    rw [hrelease, hcloses.unique]
    have hgate : c.issueId ∈ gatesOf data unit := mem_gatesOf.2 ⟨gate, hon.symm, hi⟩
    have hcontains : (gatesOf data unit).contains c.issueId = true := List.contains_iff_mem.2 hgate
    have hissue : issueOf data c.issueId = some gate := hon ▸ hi.issue
    dsimp only
    rw [if_neg (by rw [Bool.not_eq_true', Bool.not_eq_false]; exact hcontains), hissue]
    dsimp only
    rw [if_neg (Bool.eq_false_iff.1 (comparable_iff.2 hcloses.comparable)), hlatest, Option.map_some,
      if_neg (not_not.2 rfl)]
    rfl

/-- **Where the rules agree.** A release is accepted where the unit is released and a gate of it closed on a comment. -/
theorem accepted_iff (h : Loop.Host H) (data : Export) (unit : Text) :
    (∃ p : Preparation, p.admits h data unit = .ok ()) ↔
      released data unit = .ok true ∧ ∃ gate c, Inherits data unit gate ∧ Closes h data gate c := by
  constructor
  · rintro ⟨p, hp⟩
    obtain ⟨hreleased, gate, c, hi, hcloses, -⟩ := admits_iff.1 hp
    exact ⟨hreleased, gate, c, hi, hcloses⟩
  · rintro ⟨hreleased, gate, c, hi, hcloses⟩
    have hinside : ∀ o ∈ ["artifact-inspection"], o ∈ preparationOperations := by decide
    refine ⟨⟨["artifact-inspection"], c.id, by decide, hinside, hcloses.named⟩, ?_⟩
    exact admits_iff.2 ⟨hreleased, gate, c, hi, hcloses, rfl⟩

/-- **What is confirmed** while production is paused is released. -/
theorem released_of_confirmed {control : Routing} {operation : Operation} {measure : Row → List Watch.Reason}
    {o : Observed} (ho : admission data control unit operation measure = .ok o) (hc : o.admission = .confirmed)
    (hpaused : control.repairPaused ≠ .bool false) : released data unit = .ok true := by
  unfold admission at ho
  split at ho
  · split at ho
    · cases ho
    · split at ho
      · cases ho
        cases hc
      · dsimp only at ho
        split at ho
        · cases ho
          cases hc
        · obtain ⟨held, hheld, ho⟩ := bind_ok ho
          cases hr : released data unit with
          | error e =>
            rw [hr] at hheld
            cases hheld
          | ok released =>
            rw [hr] at hheld
            cases hheld
            cases released with
            | true => rfl
            | false =>
              cases ho
              cases hc
  · cases ho
    cases hc

/-! ## A comment that is listed twice -/

namespace Example

def moment : Json → Option Moment
  | .str "first" => some ⟨true, 1⟩
  | .str "second" => some ⟨true, 2⟩
  | _ => none

def host : Loop.Host Unit := ⟨fun _ => (), id, fun _ => ⟨[], [], 0⟩, fun _ => ⟨[], [], 0⟩, moment⟩

/-- A gate that is closed. -/
def closedGate : Issue where
  id := ['g']
  fields := [("labels", .arr [.str "role:human"]), ("status", .str "closed"), ("closed_at", .str "second")]

/-- The comment it closed on. -/
def record : Lit.Comment := ⟨['c'], ['g'], [("created_at", .str "first")]⟩

/-- An export that lists the comment twice. -/
def twice : Export := ⟨[closedGate], [record, record], [⟨['u'], ['g'], "blocks", []⟩]⟩

end Example

/-- **A release that cannot be cited**: the gate closed on a comment whose id the export has twice. -/
theorem release_ambiguous :
    released Example.twice ['u'] = .ok true ∧
    (∃ gate c, Inherits Example.twice ['u'] gate ∧ c ∈ Example.twice.comments ∧ OnTime Example.host gate c) ∧
    ∀ p : Preparation, p.admits Example.host Example.twice ['u'] ≠ .ok () := by
  have hgate : Inherits Example.twice ['u'] Example.closedGate := ⟨by decide, by decide, by decide⟩
  refine ⟨by rfl, ⟨Example.closedGate, Example.record, hgate, List.mem_cons_self, rfl, ?_⟩, ?_⟩
  · exact ⟨⟨true, 1⟩, ⟨true, 2⟩, rfl, rfl, rfl, by decide⟩
  · intro p hp
    obtain ⟨-, gate, c, -, hcloses, -⟩ := admits_iff.1 hp
    obtain ⟨-, hmem, -⟩ := hcloses.recorded
    have hrecord : c = Example.record := by
      rcases List.mem_cons.1 hmem with heq | hmem
      · exact heq
      · exact List.mem_singleton.1 hmem
    have htwice := congrArg List.length hcloses.unique
    rw [hrecord] at htwice
    exact absurd htwice (by decide)

end SelectionFacts

end Arhugula
