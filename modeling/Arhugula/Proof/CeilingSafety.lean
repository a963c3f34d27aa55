import Arhugula.Spec.Ceiling

/-!
# What a ceiling leaves room for

A bound that is resolved is ordered (`Ordered`): the soft threshold, the limit of the finish band, the hard close, the
ceiling and the window of the lane. A turn is admitted where its usage is below the first and what it may still take
fits under the ceiling (`admits_iff`). The ceiling of a bound is not above that of the row and its reserve not below,
so the watch, which admits by the row alone, has no headroom to miss (`ceiling_agrees`).
-/

namespace Arhugula

namespace Ceiling

open Strings Watch

variable {h : Host} {row : Watch.Session} {layers : List Layer} {m : Measurement} {b : Bound} {d : Decision}
  {handoff budget u v : ℤ} {expected : Option LaneIdentity}

/-! ## The soft threshold -/

/-- **No layers fold to a negative threshold.** -/
theorem softThreshold_nonneg {soft : ℤ} (hs : softThreshold h layers = .ok soft) : 0 ≤ soft := by
  have hset : setCeiling h layers = .ok (some soft) := by
    unfold softThreshold at hs
    split at hs
    · cases hs
    · cases hs
    · cases hs
    · rename_i hset
      cases hs
      exact hset
  obtain ⟨written, -, hwritten⟩ := bind_ok hset
  have hfolded : folded h (written.filterMap id) = .ok (some soft) := by
    by_cases hnil : written.filterMap id = []
    · dsimp only at hwritten
      rw [if_pos hnil] at hwritten
      cases hwritten
    · dsimp only at hwritten
      rw [if_neg hnil] at hwritten
      exact hwritten
  obtain ⟨moves, -, hmoves⟩ := bind_ok hfolded
  obtain ⟨ceiling, -, hceiling⟩ := bind_ok hmoves
  by_cases hneg : ceiling.any (· < 0) = true
  · rw [if_pos hneg] at hceiling
    cases hceiling
  · rw [if_neg hneg] at hceiling
    cases hceiling
    have hsoft : ¬ soft < 0 := by simpa using hneg
    omega

/-! ## Bounds -/

/-- A bound in order, of a row and what was measured. -/
structure Ordered (row : Watch.Session) (m : Measurement) (b : Bound) : Prop where
  identity : b.identity = m.identity
  ceiling_le_row : b.ceiling ≤ row.ceiling
  ceiling_le_window : b.ceiling ≤ m.identity.window
  row_le_reserve : row.reserve ≤ b.reserve
  close_add_reserve : b.close + b.reserve = b.ceiling
  soft_pos : 0 < b.soft
  grace_nonneg : 0 ≤ b.grace
  grace_le : b.grace ≤ maxGrace
  limit_le_close : b.limit ≤ b.close

/-- **What is resolved is in order.** -/
theorem ordered_resolve (hb : Bound.resolve h row layers m handoff = .ok b) : Ordered row m b := by
  obtain ⟨soft, -, hb⟩ := bind_ok hb
  split at hb
  · cases hb
  · rename_i hroom
    cases hb
    have hclose : 0 < soft ∧ soft ≤ min (row.ceiling : ℤ) m.identity.window - max (row.reserve : ℤ) handoff :=
      not_not.1 fun hno => hroom (.inr hno)
    have hgrace : (0 : ℤ) ≤ maxGrace := by decide
    exact
      { identity := rfl
        ceiling_le_row := min_le_left _ _
        ceiling_le_window := min_le_right _ _
        row_le_reserve := le_max_left _ _
        close_add_reserve := by
          dsimp only
          omega
        soft_pos := hclose.1
        grace_nonneg := by
          dsimp only
          omega
        grace_le := min_le_left _ _
        limit_le_close := by
          unfold Bound.limit
          dsimp only
          omega }

theorem Ordered.reserve_nonneg (ho : Ordered row m b) : 0 ≤ b.reserve := by
  have hrow := ho.row_le_reserve
  omega

theorem Ordered.close_le_ceiling (ho : Ordered row m b) : b.close ≤ b.ceiling := by
  have hsum := ho.close_add_reserve
  have hreserve := ho.reserve_nonneg
  omega

/-! ## Bands -/

/-- How far a band is from the start. -/
def Band.rank : Band → ℕ
  | .under => 0
  | .finish => 1
  | .close => 2

/-- Bands in the order that usage passes through them. -/
instance : LE Band := ⟨fun x y => x.rank ≤ y.rank⟩

theorem band_under_iff : band u b = .under ↔ u < b.soft := by
  unfold band
  by_cases hsoft : u < b.soft
  · simp [hsoft]
  · by_cases hlimit : u < b.limit <;> simp [hsoft, hlimit]

theorem band_close_iff (hg : 0 ≤ b.grace) : band u b = .close ↔ b.limit ≤ u := by
  have hlimit : b.soft ≤ b.limit := by
    unfold Bound.limit
    omega
  unfold band
  by_cases hsoft : u < b.soft
  · have hbelow : ¬ b.limit ≤ u := by omega
    simp [hsoft, hbelow]
  · by_cases hfinish : u < b.limit
    · have hbelow : ¬ b.limit ≤ u := by omega
      simp [hsoft, hfinish, hbelow]
    · have habove : b.limit ≤ u := by omega
      simp [hsoft, hfinish, habove]

/-- **More usage is never in an earlier band.** -/
theorem band_mono (hg : 0 ≤ b.grace) (hle : u ≤ v) : band u b ≤ band v b := by
  change (band u b).rank ≤ (band v b).rank
  cases hv : band v b with
  | under =>
    have hunder : band u b = .under := by
      have hsoft := band_under_iff.1 hv
      apply band_under_iff.2
      omega
    rw [hunder]
  | finish =>
    -- what is at the close stays there
    have hopen : band u b ≠ .close := by
      intro hu
      have hlimit := (band_close_iff hg).1 hu
      have hclose : band v b = .close := (band_close_iff hg).2 (by omega)
      rw [hv] at hclose
      cases hclose
    cases hu : band u b with
    | under => exact Nat.zero_le 1
    | finish => exact Nat.le_refl 1
    | close => exact absurd hu hopen
  | close =>
    cases band u b with
    | under => exact Nat.zero_le 2
    | finish => exact Nat.le_succ 1
    | close => exact Nat.le_refl 2

/-! ## Decisions -/

/-- **When a turn is admitted.** -/
theorem admits_iff (hd : m.decide b budget expected = .ok d) :
    d.admits = true ↔ m.usage < b.soft ∧ m.requestInput + budget + b.reserve ≤ b.ceiling := by
  unfold Measurement.decide at hd
  split at hd
  · cases hd
  · split at hd
    · cases hd
    · cases hd
      dsimp only
      rw [List.isEmpty_iff, List.append_eq_nil_iff, ← band_under_iff]
      constructor
      · rintro ⟨hband, hroom⟩
        refine ⟨?_, ?_⟩
        · by_contra hne
          rw [if_pos hne] at hband
          cases hband
        · by_contra hlt
          rw [if_pos (by omega)] at hroom
          cases hroom
      · rintro ⟨hband, hroom⟩
        exact ⟨if_neg (not_not.2 hband), if_neg (by omega)⟩

/-- What is measured is in the summary. -/
theorem known_request {s : Watch.State} (hm : Measurement.known s = some m) :
    s.kind = .codex ∧ s.latestRequestInputTokens = some m.requestInput := by
  unfold Measurement.known at hm
  cases hrequest : s.latestRequestInputTokens with
  | none =>
    rw [hrequest] at hm
    cases hm
  | some n =>
    simp only [hrequest, Option.bind_eq_bind, Option.bind_eq_some_iff, Option.some.injEq, exists_eq_left'] at hm
    obtain ⟨output, -, window, -, sessionId, -, model, -, hm⟩ := hm
    split at hm
    · cases hm
    · rename_i hwhole
      cases hm
      exact ⟨not_not.1 fun hkind => hwhole (.inl hkind), rfl⟩

theorem parse_request {s : Watch.State} (hm : Measurement.parse s expected = .ok m) :
    s.kind = .codex ∧ s.latestRequestInputTokens = some m.requestInput := by
  unfold Measurement.parse at hm
  split at hm
  · cases hm
  · rename_i hknown
    split at hm
    · cases hm
    · cases hm
      exact known_request hknown

/-- The watch misses headroom where the row leaves none for what was consumed. -/
theorem headroom_iff {s : Watch.State} {paused : Bool} {n : ℕ} (hk : s.kind = .codex)
    (hn : s.latestRequestInputTokens = some n) :
    .insufficientHeadroom ∈ (Watch.admission paused row s).reasons ↔
      (row.ceiling : ℤ) < n + (row.taskBudget + row.reserve) := by
  unfold Watch.admission
  simp [hk, hn]
  omega

/-- **The arithmetic of a ceiling.** -/
theorem ceiling_agrees (hb : Bound.resolve h row layers m handoff = .ok b) :
    (0 < b.soft ∧ b.soft ≤ b.soft + b.grace ∧ b.soft + b.grace ≤ b.close ∧ b.close ≤ b.ceiling ∧
      b.ceiling ≤ m.identity.window) ∧
    (∀ u v : ℤ, u ≤ v → band u b ≤ band v b) ∧ (∀ u : ℤ, band u b = .close ↔ b.soft + b.grace ≤ u) ∧
    (∀ m' budget expected d, Measurement.decide m' b budget expected = .ok d → d.admits = true →
      m'.usage < b.soft ∧ m'.requestInput + budget + b.reserve ≤ b.ceiling) ∧
    (∀ m' expected d, Measurement.decide m' b row.taskBudget expected = .ok d → d.admits = true →
      ∀ s latest paused, Measurement.parse s latest = .ok m' →
        .insufficientHeadroom ∉ (Watch.admission paused row s).reasons) := by
  have ho := ordered_resolve hb
  have hgrace := ho.grace_nonneg
  refine ⟨⟨ho.soft_pos, by omega, ho.limit_le_close, ho.close_le_ceiling, ho.ceiling_le_window⟩,
    fun u v hle => band_mono hgrace hle, fun u => band_close_iff hgrace, ?_, ?_⟩
  · intro m' budget expected d hd hadmits
    exact (admits_iff hd).1 hadmits
  · intro m' expected d hd hadmits s latest paused hm hmiss
    obtain ⟨hkind, hrequest⟩ := parse_request hm
    have hfits := ((admits_iff hd).1 hadmits).2
    have hshort := (headroom_iff hkind hrequest).1 hmiss
    have hceiling := ho.ceiling_le_row
    have hreserve := ho.row_le_reserve
    omega

/-! ## A turn -/

namespace Example

def host : Host := ⟨fun bytes => .ok (bytes.map fun x => Char.ofNat x.toNat), id⟩

/-- The bytes of `ceiling = 150_000`. -/
def layer : Layer :=
  ⟨"memento.conf".toList,
    some [99, 101, 105, 108, 105, 110, 103, 32, 61, 32, 49, 53, 48, 95, 48, 48, 48, 10]⟩

def lane : Watch.Session := ⟨[], .codex, [115], [], 200000, 20000, 10000⟩

/-- What the first turn of a lane left. -/
def summary : Watch.State :=
  { State.fresh .codex with
    sessionId := some [115]
    model := some [109]
    status := .complete
    latestRequestInputTokens := some 100000
    latestResponseOutputTokens := some 500
    reportedContextWindowTokens := some 258400
    completionCount := 1 }

def measurement : Measurement := ⟨⟨[115], [109], 258400⟩, 100000, 500, .complete, 1⟩

def bound : Bound := ⟨⟨[115], [109], 258400⟩, 200000, 40000, 160000, 150000, 10000⟩

end Example

/-- A turn below the threshold is admitted by both. -/
theorem ceiling_agrees_sample :
    Bound.resolve Example.host Example.lane [Example.layer] Example.measurement 40000 = .ok Example.bound ∧
    .insufficientHeadroom ∉ (Watch.admission false Example.lane Example.summary).reasons := by
  have hb : Bound.resolve Example.host Example.lane [Example.layer] Example.measurement 40000 =
      .ok Example.bound := by
    decide +kernel
  have hm : Measurement.parse Example.summary none = .ok Example.measurement := by
    decide +kernel
  obtain ⟨-, -, -, -, hagrees⟩ := ceiling_agrees hb
  exact ⟨hb, hagrees Example.measurement none ⟨([115], 1), .under, true, [], none⟩ (by decide +kernel) rfl
    Example.summary none false hm⟩

end Ceiling

end Arhugula
