import Arhugula.Proof.LoopEpochs

/-!
# The hold of a reset

While a package is sealed, or a native receipt awaited, nothing is admitted. What holds `begin` back is `Refuses`;
the flags in it stay until the operation that may clear them.
-/

namespace Arhugula

namespace Loop

open Reentrant Durable Strings Lit

variable {H : Type} {h : Host H} {J J' K : Journal H} {t : List (LEntry H)} {meth : Method H} {s s' : JSlot H}
  {older l : List (LEntry H)} {e : LEntry H}

/-- A package is sealed, or a native receipt is awaited. -/
def IsOnHold (J : Journal H) : Prop := J.reset.isSome = true ∨ J.isAwaiting = true

/-- Nothing is admitted while the hold stands. -/
def IsHeld (J : Journal H) : Prop := IsOnHold J → J.admission = none

/-- **What holds `begin` back.** -/
def Refuses (b : Begin) (J : Journal H) : Prop :=
  IsOnHold J ∨ (J.isMaintenanceOnly = true ∧ b.maintenance = false) ∨ 5 ≤ J.epochCompleted ∨
    (J.isResetRequested = true ∧ ¬ (b.maintenance = true ∧ J.isMaintenanceOnly = true))

/-- **What `begin` admits was not held back.** -/
theorem Admits.not_refuses {b : Begin} {control : Control} {lead : Row} {data : Export} {reservation : Json}
    (ha : Admits h b J control lead data reservation) : ¬ Refuses b J := by
  have hdue := ha.due
  simp only [isResetDue, Bool.or_eq_false_iff, Bool.and_eq_false_iff, Bool.not_eq_false', Bool.and_eq_true,
    decide_eq_false_iff_not] at hdue
  obtain ⟨⟨hcount, hreset⟩, hrequested⟩ := hdue
  rintro ((hsealed | hawaiting) | ⟨hmaintenance, hproduction⟩ | hfive | ⟨hreq, hnot⟩)
  · rw [hreset] at hsealed
    cases hsealed
  · rw [ha.awaiting] at hawaiting
    cases hawaiting
  · rw [ha.maintenance hmaintenance] at hproduction
    cases hproduction
  · exact hcount hfive
  · rcases hrequested with hno | hyes
    · rw [hno] at hreq
      cases hreq
    · exact hnot hyes

/-! ## One change -/

/-- The admissions are the same. -/
structure SameAdmissions (J J' : Journal H) : Prop where
  admission : J'.admission = J.admission
  admissions : J'.admissions = J.admissions
  iteration : J'.iteration = J.iteration

/-- **What one change does to the hold.** -/
structure Holding (t : List (LEntry H)) (J J' : Journal H) : Prop where
  held : IsHeld J → IsHeld J'
  refused : ∀ b, Runs t (.begin b) → Refuses b J → SameAdmissions J J'
  maintenance : J.isMaintenanceOnly = true → J'.isMaintenanceOnly = true ∨ ∃ receipt deadline, Runs t (.acknowledge receipt deadline)
  requested : J.isResetRequested = true → J'.isResetRequested = true ∨ Begins t J

/-- A change that adds no hold, clears no flag and admits nothing. -/
theorem Holding.of_same (hsame : SameAdmissions J J') (hhold : IsOnHold J' → IsOnHold J)
    (hmaintenance : J.isMaintenanceOnly = true → J'.isMaintenanceOnly = true)
    (hrequested : J.isResetRequested = true → J'.isResetRequested = true) : Holding t J J' where
  held hh hon := hsame.admission.trans (hh (hhold hon))
  refused _ _ _ := hsame
  maintenance hm := .inl (hmaintenance hm)
  requested hr := .inl (hrequested hr)

/-- A change that admits nothing any more, and that is not of `begin`. -/
theorem Holding.of_none (hr : Runs t meth) (hm : ∀ b, meth ≠ .begin b) (hnone : J'.admission = none)
    (hmaintenance : J.isMaintenanceOnly = true → J'.isMaintenanceOnly = true ∨ ∃ receipt deadline, Runs t (.acknowledge receipt deadline))
    (hrequested : J.isResetRequested = true → J'.isResetRequested = true ∨ Begins t J) : Holding t J J' where
  held _ _ := hnone
  refused b hb := absurd (hr.unique hb) (hm b)
  maintenance := hmaintenance
  requested := hrequested

/-- **The hold after each save.** -/
theorem saves_holding (hr : Runs t meth) (hs : Saves h t meth J J') : Holding t J J' := by
  cases hs with
  | rejected report hm => exact Holding.of_same ⟨rfl, rfl, rfl⟩ (fun hon => hon) (fun hm => hm) fun _ => rfl
  | exhausted r => exact Holding.of_same ⟨rfl, rfl, rfl⟩ (fun hon => hon) (fun hm => hm) fun _ => rfl
  | begun r control lead data reads binding id issuer reservation hread hrouted hexported hbound hadmits =>
    have hnot := hadmits.not_refuses
    refine ⟨fun _ hon => absurd (.inl hon) hnot, fun b' hb' href => ?_, fun hm => .inl hm, fun hq => .inl hq⟩
    cases hr.unique hb'
    exact absurd href hnot
  | requested requests => exact Holding.of_same ⟨rfl, rfl, rfl⟩ (fun hon => hon) (fun hm => hm) fun _ => rfl
  | moved grant before after reads hread hstands hexported hbeside =>
    -- the grant that moves was there, so nothing was on hold
    have hsome : J.admission ≠ none := by
      intro hnone
      have hclear := hstands.clear
      simp only [clear, granted, hnone] at hclear
      cases hclear
    refine ⟨fun hh hon => absurd (hh hon) hsome, fun b hb => ?_, fun hm => .inl hm, fun hq => .inl hq⟩
    cases hr.unique hb
  | completed record hnew =>
    refine ⟨fun hh hon => ?_, fun b hb => ?_, fun hm => .inl hm, fun hq => .inl hq⟩
    · have hnone : J.admission = none := hh hon
      simp [completed, hnone]
    · cases hr.unique hb
  | reviewed result g head next harc hresult hevaluate =>
    refine ⟨fun hh hon => hh hon, fun b hb => ?_, fun hm => .inl hm, fun hq => .inl hq⟩
    cases hr.unique hb
  | «sealed» manifest =>
    exact Holding.of_none hr (by simp) rfl (fun hm => .inl hm) fun hq => .inl hq
  | intended session hreset hpending =>
    unfold intended
    cases J.nativeReceipt with
    | none => exact Holding.of_same ⟨rfl, rfl, rfl⟩ (fun hon => hon) (fun hm => hm) fun hq => hq
    | some accepted => exact Holding.of_same ⟨rfl, rfl, rfl⟩ (fun hon => hon) (fun hm => hm) fun hq => hq
  | booted session last reset frontier hreset hpending hpackage =>
    cases hauto : frontier.automatic with
    | true => exact Holding.of_none hr (by simp) rfl (fun hm => .inl hm) fun hq => .inl hq
    | false =>
      refine Holding.of_none hr (by simp) rfl (fun hm => .inl hm) fun _ => .inr ?_
      exact .inl ⟨_, _, reset, frontier, hr, hreset, hpackage, hauto⟩
  | acknowledged session bound acceptance hpending hreset =>
    refine ⟨fun _ hon => ?_, fun b hb => ?_, fun _ => .inr ⟨_, _, hr⟩, fun _ => .inr (.inr ⟨_, _, hr⟩)⟩
    · -- the package is put away, and nothing is awaited
      rcases hon with hon | hon <;> cases hon
    · cases hr.unique hb
  | recovered hfailed =>
    exact Holding.of_none hr (by simp) rfl (fun _ => .inl rfl) fun _ => .inl rfl
  | _ => exact Holding.of_same ⟨rfl, rfl, rfl⟩ (fun hon => hon) (fun hm => hm) fun hq => hq

/-- **A change between two journals that are there.** -/
theorem step_holding (hstep : Step h t s s') (hJ : Opens s J) (hK : Opens s' K) : Holding t J K := by
  obtain ⟨meth, L, hruns, hsaves, rfl⟩ := step_saves hstep hJ hK
  have hh := saves_holding hruns hsaves
  exact ⟨hh.held, fun b hb hr => ⟨(hh.refused b hb hr).admission, (hh.refused b hb hr).admissions,
    (hh.refused b hb hr).iteration⟩, hh.maintenance, hh.requested⟩

/-! ## Runs -/

/-- Since some point of the log an activation of this kind changed the journal. -/
def Did (P : List (LEntry H) → Prop) (older l : List (LEntry H)) : Prop :=
  ∃ (l₁ : List (LEntry H)) (e : LEntry H) (l₂ : List (LEntry H)), l = l₁ ++ e :: l₂ ∧ P (trace e.frame (l₂ ++ older))

theorem Did.entry {P : List (LEntry H) → Prop} (hd : Did P older l) : Did P older (e :: l) := by
  obtain ⟨l₁, e', l₂, rfl, hP⟩ := hd
  exact ⟨e :: l₁, e', l₂, rfl, hP⟩

/-- **A flag stays until it is cleared.** -/
theorem flag_until {j₀ : JSlot H} {w : LWorld H} (hinv : (journalLaw h).Inv j₀ w) (flag : Journal H → Prop)
    (P : List (LEntry H) → Prop)
    (hflag : ∀ t s s' J K, Step h t s s' → Opens s J → Opens s' K → flag J → flag K ∨ P t)
    (hlog : w.log = l ++ older) (hJ : Opens ((journalLaw h).last j₀ older) J) (hold : flag J)
    (hK : Opens w.st.journal K) : flag K ∨ Did P older l := by
  have hnow : w.st.journal ≠ .absent ∧ ∀ K, Opens w.st.journal K → flag K ∨ Did P older l := by
    refine hinv.since hlog (P := fun l s => s ≠ .absent ∧ ∀ K, Opens s K → flag K ∨ Did P older l) ?_ ?_
    · refine ⟨fun habsent => ?_, fun K hK => .inl (hK.unique hJ ▸ hold)⟩
      obtain ⟨f, hf, -⟩ := hJ
      rw [habsent] at hf
      cases hf
    · rintro e l ⟨hthere, hall⟩ hlawful
      rcases hlawful.step with hsame | hstep
      · refine ⟨fun habsent => hthere (hsame.symm.trans habsent), fun K hK => ?_⟩
        rw [hsame] at hK
        exact (hall K hK).imp_right Did.entry
      · refine ⟨step_present hstep, fun K hK => ?_⟩
        rcases step_opens hstep hK with ⟨L, hL⟩ | ⟨habsent, -⟩
        · rcases hall L hL with hflagged | hdid
          · rcases hflag _ _ _ L K hstep hL hK hflagged with hkept | hcleared
            · exact .inl hkept
            · exact .inr ⟨[], e, l, rfl, hcleared⟩
          · exact .inr hdid.entry
        · exact absurd habsent hthere
  exact hnow.2 K hK

variable [DecidableEq H] {sha256 : Text → Text} {journal : JSlot H} {control : Slot (Written Control)} {c : LConfig H}

/-- **The hold of a reset.** In every reachable configuration, in whatever order the operations ran and crashed:
while a package is sealed or a native receipt awaited nothing is admitted; a `begin` that returns read a journal
that did not hold it back; a `begin` that was held back admits nothing; and the journal is for maintenance only
until a native reset is acknowledged, a reset is requested until an epoch begins. -/
theorem reset_hold (hstart : ∀ J, Opens journal J → IsHeld J)
    (hc : (loop h sha256).Reachable (shelf journal control) c) :
    (∀ J, Opens c.w.st.journal J → IsOnHold J → J.admission = none) ∧
    (∀ l e older, c.w.log = l ++ e :: older → ∀ b, Runs (trace e.frame older) (.begin b) →
      (∀ r, e.act = .ret (.ok (.began r)) → ∃ J, HasRead (trace e.frame older) J ∧ ¬ Refuses b J) ∧
      ∀ J J', Opens ((journalLaw h).last journal older) J → Opens e.st.journal J' → Refuses b J → SameAdmissions J J') ∧
    ∀ l older, c.w.log = l ++ older → ∀ J J', Opens ((journalLaw h).last journal older) J → Opens c.w.st.journal J' →
      (J.isMaintenanceOnly = true → J'.isMaintenanceOnly = true ∨
        Did (fun t => ∃ receipt deadline, Runs t (.acknowledge receipt deadline)) older l) ∧
      (J.isResetRequested = true → J'.isResetRequested = true ∨ Did (fun t => ∃ J, Begins t J) older l) := by
  have hinv := loop_kept.sound hc
  refine ⟨?_, fun l e older hlog b hb => ⟨fun r hr => ?_, fun J J' hJ hJ' href => ?_⟩, fun l older hlog J J' hJ hJ' =>
    ⟨fun hm => ?_, fun hq => ?_⟩⟩
  · refine (hinv.all (P := fun s => ∀ J, Opens s J → IsHeld J) hstart fun t s s' hs hstep => ?_).2
    refine step_keeps (fun _ _ _ _ _ _ => rfl) (fun _ hk => hk) (fun _ _ _ _ hruns hsaves hj => ?_) hstep hs
    exact (saves_holding hruns hsaves).held hj
  · obtain ⟨J, control, lead, data, reads, reservation, hread, -, -, hadmits, -⟩ :=
      ((hinv.at hlog).owes _ hr).issued b r hb rfl
    exact ⟨J, hread, hadmits.not_refuses⟩
  · rcases (hinv.at hlog).step with hsame | hstep
    · have heq : e.st.journal = (journalLaw h).last journal older := hsame
      rw [heq] at hJ'
      rw [hJ'.unique hJ]
      exact ⟨rfl, rfl, rfl⟩
    · exact (step_holding hstep hJ hJ').refused b hb href
  · exact flag_until hinv (fun J => J.isMaintenanceOnly = true) _
      (fun t s s' J K hstep hJ hK hf => (step_holding hstep hJ hK).maintenance hf) hlog hJ hm hJ'
  · exact flag_until hinv (fun J => J.isResetRequested = true) (fun t => ∃ J, Begins t J)
      (fun t s s' J K hstep hJ hK hf => ((step_holding hstep hJ hK).requested hf).imp_right fun hb => ⟨J, hb⟩) hlog hJ hq hJ'

namespace Example

/-- A journal with an admission. -/
def admitted : Journal Hashed :=
  { begun with
    admission := some ⟨"i".toList, "A".toList, ⟨[], [], 0⟩, [], false, ⟨[], []⟩, 1, none, .null, [], [], [], none⟩ }

/-- A routing with one lead. -/
def routing : Control := ⟨some false, [⟨"buford", "s".toList, "t".toList, []⟩], none, []⟩

/-- An export of the goal alone. -/
def exported : Export := ⟨[⟨"G".toList, [("status", .str "open")]⟩], [], []⟩

end Example

/-- A package that is sealed takes the admission away. -/
theorem reset_hold_sealed :
    ∃ (c : LConfig Hashed) (J : Journal Hashed),
      (loop Example.host id).Reachable (shelf (.holding (published Example.admitted)) (.holding (published Example.routing))) c ∧
        Opens c.w.st.journal J ∧ J.reset.isSome = true ∧ J.admission = none := by
  obtain ⟨c, hc, ht⟩ := Machine.Reachable.of_run (loop Example.host id)
    (shelf (.holding (published Example.admitted)) (.holding (published Example.routing)))
    [.invoke (.prepareClear ⟨[], [], none⟩), .reply .done, .reply .done, .reply .done, .reply (.binding ⟨[], [], 0⟩),
      .reply (.exported Example.exported ⟨[], []⟩), .reply .done,
      .reply (.identity ⟨none, none, none, "", .null, (.null, .null, .null), none, none, 0⟩),
      .reply (.sealed ⟨[], [], 0⟩), .reply .done, .reply .done]
    (Example.shows fun J => J.reset.isSome) (by decide +kernel)
  obtain ⟨J, hJ, hsealed⟩ := Example.shows_opens ht
  have hstart : ∀ K, Opens (.holding (published Example.admitted)) K → IsHeld K := by
    rintro K ⟨f, hf, hK⟩ hon
    cases hf
    rw [opened_keeps hK] at hon
    rcases hon with hon | hon <;> cases hon
  exact ⟨c, J, hc, hJ, hsealed, (reset_hold hstart hc).1 J hJ (.inl hsealed)⟩

end Loop

end Arhugula
