import Arhugula.Proof.LoopHold

/-!
# The review budget

The passes that were counted for a unit are kept, and each new evaluation adds to them. A pass names its arc, and an
arc has one unit, so that no pass is counted under two.
-/

namespace Arhugula

namespace Loop

open Reentrant Durable Strings Lit ReviewBudget

variable {H β : Type} {h : Host H} {J J' K : Journal H} {t : List (LEntry H)} {meth : Method H} {s s' : JSlot H}

/-! ## Objects -/

/-- The value of another key stays. -/
theorem Dict.find_map_other {key other : Text} {value : β} (hne : other ≠ key) (d : Dict β) :
    Dict.find (d.map fun m => if m.1 = key then (key, value) else m) other = d.find other := by
  unfold Dict.find
  induction d with
  | nil => rfl
  | cons m d ih =>
    rw [List.map_cons, List.find?_cons, List.find?_cons]
    by_cases hm : m.1 = key
    · have hkey : key ≠ other := hne.symm
      simpa [hm, hkey, -List.find?_map] using ih
    · by_cases ho : m.1 = other
      · simp [ho, hne]
      · simpa [hm, ho, -List.find?_map] using ih

/-- The value of a key that is there changes. -/
theorem Dict.find_map_self {key : Text} {value : β} {d : Dict β} (hany : d.any (fun m => m.1 = key) = true) :
    Dict.find (d.map fun m => if m.1 = key then (key, value) else m) key = some value := by
  unfold Dict.find
  induction d with
  | nil => cases hany
  | cons m d ih =>
    rw [List.map_cons, List.find?_cons]
    by_cases hm : m.1 = key
    · simp [hm]
    · have htail : List.any d (fun m => m.1 = key) = true := by simpa [hm] using hany
      simpa [hm, -List.find?_map] using ih htail

theorem Dict.find_put {d : Dict β} {key other : Text} {value : β} :
    (Dict.put d key value).find other = if other = key then some value else d.find other := by
  unfold Dict.put
  by_cases hany : d.any (fun m => m.1 = key) = true
  · rw [if_pos hany]
    by_cases ho : other = key
    · rw [if_pos ho, ho]
      exact Dict.find_map_self hany
    · rw [if_neg ho]
      exact Dict.find_map_other ho d
  · rw [if_neg hany]
    have hnone : ∀ m ∈ d, m.1 ≠ key := fun m hm heq => hany (List.any_eq_true.2 ⟨m, hm, decide_eq_true heq⟩)
    unfold Dict.find
    rw [List.find?_append]
    by_cases ho : other = key
    · have hfind : List.find? (fun m : Text × β => decide (m.1 = key)) d = none :=
        List.find?_eq_none.2 fun m hm => by simpa using hnone m hm
      rw [ho, hfind]
      simp
    · have hne : key ≠ other := fun heq => ho heq.symm
      simp [ho, hne]

theorem Dict.find_put_self {d : Dict β} {key : Text} {value : β} : (Dict.put d key value).find key = some value := by
  rw [Dict.find_put, if_pos rfl]

/-! ## One review -/

/-- **The passes of an evaluation**: those that were counted, and new ones of the arc. -/
theorem evaluate_counts {g : Gate} {arc head : Text} {observed : List Pass} {impacts : List Impact} {next : Option Text}
    {v : Evaluation} (hv : evaluate g arc head observed impacts next = .ok v) :
    v.observed.Nodup ∧ v.completedPasses = v.observed.length ∧ (∀ p ∈ observed, p ∈ v.observed) ∧
      (∀ p ∈ v.observed, p ∈ observed ∨ p.arc = arc) ∧ (5 ≤ v.completedPasses → v.admitReview = false) := by
  unfold evaluate at hv
  split at hv
  · cases hv
  split at hv
  · cases hv
  cases hv
  refine ⟨List.nodup_dedup _, rfl, fun p hp => ?_, fun p hp => ?_, fun hfive => ?_⟩
  · exact List.mem_dedup.2 (List.mem_append_left _ hp)
  · rcases List.mem_append.1 (List.mem_dedup.1 hp) with hp | hp
    · exact .inl hp
    · obtain ⟨r, -, rfl⟩ := List.mem_map.1 hp
      exact .inr rfl
  · dsimp only at hfive ⊢
    simp only [Bool.and_eq_false_iff, decide_eq_false_iff_not]
    exact .inl (.inl (by omega))

/-- The review that is recorded for a unit. -/
def recorded (J : Journal H) (key : Text) : Option Evaluation := (J.reviews.find key).map Review.evaluation

/-- **The counts are in order.** -/
structure Counts (J : Journal H) : Prop where
  once : ∀ key v, recorded J key = some v → v.observed.Nodup
  passes : ∀ key v, recorded J key = some v → v.completedPasses = v.observed.length
  unit : ∀ key v, recorded J key = some v → ∀ p ∈ v.observed, J.arcUnits.find p.arc = some key
  budget : ∀ key v, recorded J key = some v → 5 ≤ v.completedPasses → v.admitReview = false

/-- **The counts only grow.** -/
structure Counted (J J' : Journal H) : Prop where
  counts : Counts J'
  grows : ∀ key v, recorded J key = some v → ∃ v', recorded J' key = some v' ∧
    (∀ p ∈ v.observed, p ∈ v'.observed) ∧ v.completedPasses ≤ v'.completedPasses
  arcs : ∀ arc key, J.arcUnits.find arc = some key → J'.arcUnits.find arc = some key
  quarantine : ∀ ticket ∈ J.quarantine, ticket ∈ J'.quarantine
  unitQuarantine : ∀ key ∈ J.unitQuarantine, key ∈ J'.unitQuarantine

/-- A change of something else. -/
theorem Counted.of_same (hc : Counts J) (hreviews : J'.reviews = J.reviews) (harcs : J'.arcUnits = J.arcUnits)
    (hquarantine : J'.quarantine = J.quarantine) (hunits : J'.unitQuarantine = J.unitQuarantine) : Counted J J' := by
  have hsame : ∀ key, recorded J' key = recorded J key := by
    intro key
    unfold recorded
    rw [hreviews]
  refine ⟨⟨?_, ?_, ?_, ?_⟩, fun key v hv => ⟨v, (hsame key).trans hv, fun p hp => hp, le_refl _⟩, ?_, ?_, ?_⟩
  · exact fun key v hv => hc.once key v ((hsame key).symm.trans hv)
  · exact fun key v hv => hc.passes key v ((hsame key).symm.trans hv)
  · intro key v hv
    rw [harcs]
    exact hc.unit key v ((hsame key).symm.trans hv)
  · exact fun key v hv => hc.budget key v ((hsame key).symm.trans hv)
  · intro arc key hkey
    rw [harcs]
    exact hkey
  · intro ticket ht
    rw [hquarantine]
    exact ht
  · intro key hkey
    rw [hunits]
    exact hkey

theorem Counted.trans (hJ : Counted J J') (hK : Counted J' K) : Counted J K where
  counts := hK.counts
  grows key v hv := by
    obtain ⟨v', hv', hsub, hle⟩ := hJ.grows key v hv
    obtain ⟨v'', hv'', hsub', hle'⟩ := hK.grows key v' hv'
    exact ⟨v'', hv'', fun p hp => hsub' p (hsub p hp), hle.trans hle'⟩
  arcs arc key hkey := hK.arcs arc key (hJ.arcs arc key hkey)
  quarantine ticket ht := hK.quarantine ticket (hJ.quarantine ticket ht)
  unitQuarantine key hkey := hK.unitQuarantine key (hJ.unitQuarantine key hkey)

/-- **One review.** -/
theorem reviewed_counted {ticket key head : Text} {unit : Option Text} {result : Review} {g : Gate} {impacts : List Impact}
    {next : Option Text} (hc : Counts J) (harc : (J.arcUnits.find result.arc).getD key = key)
    (hevaluate : evaluate g result.arc head (((J.reviews.find key).map fun r => r.evaluation.observed).getD []) impacts next =
      .ok result.evaluation) : Counted J (reviewed J ticket key unit result) := by
  obtain ⟨hnodup, hlength, hkept, hnew, hbudget⟩ := evaluate_counts hevaluate
  have hold : ∀ v, recorded J key = some v → ((J.reviews.find key).map fun r => r.evaluation.observed).getD [] = v.observed := by
    intro v hv
    unfold recorded at hv
    cases hr : J.reviews.find key with
    | none =>
      rw [hr] at hv
      cases hv
    | some r =>
      rw [hr] at hv
      cases hv
      rfl
  have hrecorded : ∀ other, recorded (reviewed J ticket key unit result) other =
      if other = key then some result.evaluation else recorded J other := by
    intro other
    show ((Dict.put J.reviews key result).find other).map Review.evaluation = _
    rw [Dict.find_put]
    split <;> rfl
  have harcs : ∀ arc other, J.arcUnits.find arc = some other → (Dict.put J.arcUnits result.arc key).find arc = some other := by
    intro arc other hother
    rw [Dict.find_put]
    split
    · -- the arc of the review keeps its unit
      rename_i heq
      rw [heq] at hother
      rw [hother] at harc
      exact congrArg some harc.symm
    · exact hother
  have hgrown : ∀ v, recorded J key = some v → (∀ p ∈ v.observed, p ∈ result.evaluation.observed) ∧
      v.completedPasses ≤ result.evaluation.completedPasses := by
    intro v hv
    rw [hold v hv] at hkept
    refine ⟨hkept, ?_⟩
    rw [hc.passes key v hv, hlength]
    exact ((hc.once key v hv).subperm hkept).length_le
  refine ⟨⟨?_, ?_, ?_, ?_⟩, fun other v hv => ?_, harcs, fun x hx => ?_, fun x hx => ?_⟩
  · intro other v hv
    rw [hrecorded] at hv
    split at hv
    · cases hv
      exact hnodup
    · exact hc.once other v hv
  · intro other v hv
    rw [hrecorded] at hv
    split at hv
    · cases hv
      exact hlength
    · exact hc.passes other v hv
  · intro other v hv p hp
    rw [hrecorded] at hv
    split at hv
    · rename_i heq
      cases hv
      rcases hnew p hp with hp | hp
      · cases hr : recorded J key with
        | none =>
          have hnone : J.reviews.find key = none := by simpa [recorded] using hr
          rw [hnone] at hp
          cases hp
        | some w =>
          rw [hold w hr] at hp
          rw [heq]
          exact harcs _ _ (hc.unit key w hr p hp)
      · rw [hp, heq]
        exact Dict.find_put_self
    · exact harcs _ _ (hc.unit other v hv p hp)
  · intro other v hv
    rw [hrecorded] at hv
    split at hv
    · cases hv
      exact hbudget
    · exact hc.budget other v hv
  · rw [hrecorded]
    by_cases heq : other = key
    · rw [if_pos heq]
      exact ⟨_, rfl, hgrown v (heq ▸ hv)⟩
    · rw [if_neg heq]
      exact ⟨v, hv, fun p hp => hp, le_refl _⟩
  · show x ∈ if _ then _ else _
    split
    · exact List.mem_append_left _ hx
    · exact hx
  · show x ∈ if _ then _ else _
    split
    · exact List.mem_append_left _ hx
    · exact hx

/-- **The counts after each save.** -/
theorem saves_counted (hc : Counts J) (hs : Saves h t meth J J') : Counted J J' := by
  cases hs with
  | reviewed result g head next harc hresult hevaluate =>
    subst hresult
    exact reviewed_counted hc harc hevaluate
  | intended session hreset hpending =>
    unfold intended
    cases J.nativeReceipt with
    | none => exact Counted.of_same hc rfl rfl rfl rfl
    | some accepted => exact Counted.of_same hc rfl rfl rfl rfl
  | booted session last reset frontier hreset hpending hpackage =>
    unfold booted
    split
    · exact Counted.of_same hc rfl rfl rfl rfl
    · exact Counted.of_same hc rfl rfl rfl rfl
  | recovered hfailed =>
    rw [hfailed] at hc ⊢
    exact Counted.of_same hc rfl rfl rfl rfl
  | _ => exact Counted.of_same hc rfl rfl rfl rfl

/-! ## Runs -/

/-- What every change keeps, and adds to, since a journal of the past. -/
theorem counted_since {j₀ : JSlot H} {w : LWorld H} {older l : List (LEntry H)} (hinv : (journalLaw h).Inv j₀ w)
    (hlog : w.log = l ++ older) (hJ : Opens ((journalLaw h).last j₀ older) J) (hc : Counts J) (hK : Opens w.st.journal K) :
    Counted J K := by
  have hflag := flag_until hinv (fun K => Counted J K) (fun _ => False) ?_ hlog hJ (Counted.of_same hc rfl rfl rfl rfl) hK
  · rcases hflag with hcounted | ⟨l₁, e, l₂, -, hfalse⟩
    · exact hcounted
    · exact hfalse.elim
  · intro t s s' L K hstep hL hK hcounted
    obtain ⟨meth, M, hruns, hsaves, rfl⟩ := step_saves hstep hL hK
    have hM := hcounted.trans (saves_counted hcounted.counts hsaves)
    exact .inl (hM.trans (Counted.of_same hM.counts rfl rfl rfl rfl))

variable [DecidableEq H] {sha256 : Text → Text} {journal : JSlot H} {control : Slot (Written Control)} {c : LConfig H}

/-- **The review budget.** In every reachable configuration each pass is counted once for its unit, a pass is counted
for one unit only, and five passes or more admit no review. Since any journal of the past the counts did not decrease,
what was counted is counted, an arc is of the same unit, and what was quarantined is quarantined. -/
theorem review_budget (hstart : ∀ J, Opens journal J → Counts J)
    (hc : (loop h sha256).Reachable (shelf journal control) c) :
    (∀ J, Opens c.w.st.journal J → Counts J ∧
      ∀ key key' v v', recorded J key = some v → recorded J key' = some v' → ∀ p ∈ v.observed, ∀ p' ∈ v'.observed,
        p.arc = p'.arc → key = key') ∧
    ∀ l older, c.w.log = l ++ older → ∀ J J', Opens ((journalLaw h).last journal older) J → Opens c.w.st.journal J' →
      Counted J J' := by
  have hinv := loop_kept.sound hc
  have hkeeps : ∀ t s s', (∀ J, Opens s J → Counts J) → Step h t s s' → ∀ J, Opens s' J → Counts J := by
    intro t s s' hs hstep
    refine step_keeps (fun _ _ _ _ _ => ?_) (fun K hk => ?_) (fun _ _ _ _ _ hsaves hj => (saves_counted hj hsaves).counts)
      hstep hs
    · refine ⟨?_, ?_, ?_, ?_⟩ <;> intro key v hv <;> cases hv
    · have hsame : Counted K { K with reservations := some K.active } := Counted.of_same hk rfl rfl rfl rfl
      exact hsame.counts
  have hall := hinv.all hstart hkeeps
  refine ⟨fun J hJ => ?_, fun l older hlog J J' hJ hJ' => ?_⟩
  · have hcounts : Counts J := hall.2 J hJ
    refine ⟨hcounts, fun key key' v v' hv hv' p hp p' hp' harc => ?_⟩
    have hkey := hcounts.unit key v hv p hp
    have hkey' := hcounts.unit key' v' hv' p' hp'
    rw [harc, hkey'] at hkey
    exact (Option.some.inj hkey).symm
  · have hcounts : Counts J := by
      cases older with
      | nil => exact hstart J hJ
      | cons e older => exact hall.1 e (by rw [hlog]; simp) J hJ
    exact counted_since hinv hlog hJ hcounts hJ'

namespace Example

/-- What the gate gives for an arc with one completed pass. -/
def facts : Facts :=
  ⟨⟨['h'], ['d']⟩, ⟨[], [], 0⟩, ⟨[], [], 0⟩, none, ⟨[⟨['1'], ['h'], ['d'], true, []⟩], [], 0⟩⟩

/-- An export of one ticket. -/
def ticketed : Export := ⟨[⟨['A'], [("status", .str "open")]⟩], [], []⟩

end Example

/-- A first review counts the pass. -/
theorem review_budget_one :
    ∃ (c : LConfig Hashed) (J : Journal Hashed),
      (loop Example.host id).Reachable (shelf (.holding (published Example.begun)) .absent) c ∧
        Opens c.w.st.journal J ∧ (recorded J ['A']).map Evaluation.completedPasses = some 1 ∧ Counts J ∧
          Counted Example.begun J := by
  obtain ⟨c, hc, ht⟩ := Machine.Reachable.of_run (loop Example.host id)
    (shelf (.holding (published Example.begun)) .absent)
    [.invoke (.review ['A'] ['p'] ['x'] [] none), .reply .done, .reply .done, .reply (.exported Example.ticketed ⟨[], []⟩),
      .reply (.facts Example.facts), .reply (.pass (some ['2'])), .reply .done, .reply .done, .reply .done]
    (Example.shows fun J => decide ((recorded J ['A']).map Evaluation.completedPasses = some 1)) (by decide +kernel)
  obtain ⟨J, hJ, hpasses⟩ := Example.shows_opens ht
  have hopens : Opens (.holding (published Example.begun)) Example.begun := ⟨_, rfl, rfl⟩
  have hstart : ∀ K, Opens (.holding (published Example.begun)) K → Counts K := by
    intro K hK
    rw [hK.unique hopens]
    refine ⟨?_, ?_, ?_, ?_⟩ <;> intro key v hv <;> cases hv
  obtain ⟨hcounts, hsince⟩ := review_budget hstart hc
  exact ⟨c, J, hc, hJ, of_decide_eq_true hpasses, (hcounts J hJ).1,
    hsince c.w.log [] (List.append_nil _).symm Example.begun J hopens hJ⟩

end Loop

end Arhugula
