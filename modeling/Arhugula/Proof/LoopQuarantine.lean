import Arhugula.Proof.LitScope
import Arhugula.Proof.LoopReviews

/-!
# What quarantine bars

`begin` looks at the quarantine of the journal that it reads; `check` and `transition` look at the grant alone. A grant
is `Unharmed` as long as nothing is quarantined that its ticket depends on, in whatever LIT its fingerprint records. A
review that quarantines such a ticket or unit while the grant stands harms it, and from then on it is the change of LIT
alone that keeps the grant from being cleared (`Marked`): where the label does not reach LIT, it is cleared as before
(`clears_quarantined`). In a run where every such review is seen in LIT, what is quarantined stays barred
(`quarantine_holds`).
-/

namespace Arhugula

namespace Loop

open Reentrant Durable Strings Lit

variable {H : Type} {h : Host H} {J J' K : Journal H} {t : List (LEntry H)} {meth : Method H} {s s' : JSlot H}
  {older l log : List (LEntry H)} {e : LEntry H} {data : Export} {ticket : Text} {unit : Option Text} {journal : JSlot H}

/-! ## Quarantine -/

/-- **The quarantine of a journal bars** a ticket, or a unit of it: the ticket depends on one that is quarantined, or
the unit, or one of the units of the ticket, is. -/
def Bars (J : Journal H) (data : Export) (ticket : Text) (unit : Option Text) : Prop :=
  (∃ q ∈ J.quarantine, Depends data ticket q) ∨ isUnitHeld J ticket unit = true

/-- What was quarantined is quarantined. -/
structure Quarantined (J J' : Journal H) : Prop where
  tickets : J.quarantine ⊆ J'.quarantine
  units : J.unitQuarantine ⊆ J'.unitQuarantine

theorem Quarantined.of_same (htickets : J'.quarantine = J.quarantine) (hunits : J'.unitQuarantine = J.unitQuarantine) :
    Quarantined J J' := by
  refine ⟨?_, ?_⟩
  · rw [htickets]
    exact List.Subset.refl _
  · rw [hunits]
    exact List.Subset.refl _

theorem Quarantined.trans (hJ : Quarantined J J') (hK : Quarantined J' K) : Quarantined J K where
  tickets _ hx := hK.tickets (hJ.tickets hx)
  units _ hx := hK.units (hJ.units hx)

theorem isUnitHeld_mono (hunits : J.unitQuarantine ⊆ J'.unitQuarantine) (hheld : isUnitHeld J ticket unit = true) :
    isUnitHeld J' ticket unit = true := by
  unfold isUnitHeld at hheld ⊢
  simp only [Bool.or_eq_true, Bool.and_eq_true, List.contains_iff_mem, List.any_eq_true] at hheld ⊢
  rcases hheld with hkey | ⟨hunit, k, hk, hprefix⟩
  · exact .inl (hunits hkey)
  · exact .inr ⟨hunit, k, hunits hk, hprefix⟩

/-- What bars stays. -/
theorem Bars.mono (hq : Quarantined J J') (hb : Bars J data ticket unit) : Bars J' data ticket unit := by
  rcases hb with ⟨q, hmem, hdepends⟩ | hheld
  · exact .inl ⟨q, hq.tickets hmem, hdepends⟩
  · exact .inr (isUnitHeld_mono hq.units hheld)

/-- **Every save keeps what is quarantined.** -/
theorem saves_quarantined (hs : Saves h t meth J J') : Quarantined J J' := by
  cases hs with
  | reviewed result g head next harc hresult hevaluate =>
    refine ⟨fun x hx => ?_, fun x hx => ?_⟩
    · show x ∈ if _ then _ else _
      split
      · exact List.mem_append_left _ hx
      · exact hx
    · show x ∈ if _ then _ else _
      split
      · exact List.mem_append_left _ hx
      · exact hx
  | intended session hreset hpending =>
    unfold intended
    cases J.nativeReceipt with
    | none => exact .of_same rfl rfl
    | some accepted => exact .of_same rfl rfl
  | booted session last reset frontier hreset hpending hpackage =>
    unfold booted
    split
    · exact .of_same rfl rfl
    · exact .of_same rfl rfl
  | recovered hfailed =>
    rw [hfailed]
    exact .of_same rfl rfl
  | _ => exact .of_same rfl rfl

theorem step_quarantined (hstep : Step h t s s') (hJ : Opens s J) (hK : Opens s' K) : Quarantined J K := by
  obtain ⟨meth, L, hruns, hsaves, rfl⟩ := step_saves hstep hJ hK
  have hL := saves_quarantined hsaves
  exact ⟨hL.tickets, hL.units⟩

/-- **What was quarantined once** is quarantined. -/
theorem quarantined_since (hlaw : Throughout ((journalLaw h).Lawful journal) (l ++ older))
    (hJ : Opens ((journalLaw h).last journal older) J) (hK : Opens ((journalLaw h).last journal (l ++ older)) K) :
    Quarantined J K := by
  cases hlog : l ++ older with
  | nil =>
    obtain ⟨rfl, rfl⟩ := List.append_eq_nil_iff.1 hlog
    rw [hJ.unique hK]
    exact .of_same rfl rfl
  | cons e log =>
    rw [hlog] at hlaw hK
    have hinv : (journalLaw h).Inv journal (⟨e.st, e :: log, 0⟩ : LWorld H) := ⟨hlaw, rfl⟩
    have hflag := flag_until hinv (fun K => Quarantined J K) (fun _ => False)
      (fun t s s' L K hstep hL hK hq => .inl (hq.trans (step_quarantined hstep hL hK))) hlog.symm hJ (.of_same rfl rfl) hK
    rcases hflag with hq | ⟨l₁, e, l₂, -, hfalse⟩
    · exact hq
    · exact hfalse.elim

/-! ## Grants -/

/-- **A grant is unharmed**: in whatever LIT has its fingerprint, its ticket depends on nothing that is quarantined; and
its unit is not held. -/
def Unharmed (h : Host H) (J : Journal H) : Prop :=
  ∀ grant, J.admission = some grant →
    (∀ data, fingerprint h.digest data grant.ticket J.goalTicket = grant.fingerprint →
      ∀ q ∈ J.quarantine, ¬ Depends data grant.ticket q) ∧ isUnitHeld J grant.ticket grant.unit = false

/-- **A change spares the grant** that stands: what is quarantined anew does not bar it. -/
def Spares (h : Host H) (J K : Journal H) : Prop :=
  ∀ grant, J.admission = some grant →
    (∀ q ∈ K.quarantine, q ∉ J.quarantine → ∀ data,
      fingerprint h.digest data grant.ticket J.goalTicket = grant.fingerprint → ¬ Depends data grant.ticket q) ∧
    (isUnitHeld J grant.ticket grant.unit = false → isUnitHeld K grant.ticket grant.unit = false)

/-- A journal without a grant. -/
theorem Unharmed.of_none (hnone : J.admission = none) : Unharmed h J := by
  intro grant hgrant
  rw [hnone] at hgrant
  cases hgrant

/-- A grant that was spared. -/
theorem Unharmed.spared (hu : Unharmed h J) (hspares : Spares h J K) (hadmission : K.admission = J.admission)
    (hgoal : K.goalTicket = J.goalTicket) : Unharmed h K := by
  intro grant hgrant
  rw [hadmission] at hgrant
  obtain ⟨hfree, hheld⟩ := hu grant hgrant
  obtain ⟨hnew, hunit⟩ := hspares grant hgrant
  refine ⟨fun data hdata q hq => ?_, hunit hheld⟩
  rw [hgoal] at hdata
  by_cases hold : q ∈ J.quarantine
  · exact hfree data hdata q hold
  · exact hnew q hq hold data hdata

/-- A change that does not spare the grant quarantines something anew. -/
theorem not_spares (hnot : ¬ Spares h J K) : ¬ Quarantined K J := by
  intro hq
  refine hnot fun grant _ => ⟨fun q hmem hnew => absurd (hq.tickets hmem) hnew, fun hfree => ?_⟩
  by_contra hheld
  rw [Bool.not_eq_false] at hheld
  rw [isUnitHeld_mono hq.units hheld] at hfree
  cases hfree

/-- Exports with one fingerprint agree on what the ticket depends on. -/
theorem depends_fingerprint (hdigest : Function.Injective h.digest) {data' : Export} {goal q : Text}
    (hsame : fingerprint h.digest data ticket goal = fingerprint h.digest data' ticket goal) :
    Depends data ticket q ↔ Depends data' ticket q :=
  depends_congr (hashed_touching (hdigest hsame))

/-- What lies beside the progress of a ticket has the same relations. -/
theorem depends_beside (hdigest : Function.Injective h.digest) {data' : Export} {goal q : Text} {known : List Text}
    (hsame : fingerprint h.digest (beside data ticket known) ticket goal =
      fingerprint h.digest (beside data' ticket known) ticket goal) :
    Depends data ticket q ↔ Depends data' ticket q := by
  have hperm : (touching (beside data ticket known) ticket goal).Perm (touching (beside data' ticket known) ticket goal) :=
    hashed_touching (hdigest hsame)
  exact depends_congr hperm

/-- A grant moved: what stood for it was read, and what it then records is unharmed as before. -/
structure Moves (h : Host H) (t : List (LEntry H)) (J K : Journal H) (grant : Grant H) (data : Export) : Prop where
  read : HasRead t J
  admission : J.admission = some grant
  exported : ∃ reads, Exported t grant.ticket data reads
  fingerprint : fingerprint h.digest data grant.ticket J.goalTicket = grant.fingerprint
  unharmed : Unharmed h J → Unharmed h K

theorem granted_admission {admission : Text} {grant : Grant H} (hgranted : granted J admission = .ok grant) :
    J.admission = some grant := by
  unfold granted at hgranted
  split at hgranted
  · rename_i held hheld
    split at hgranted
    · cases hgranted
      exact hheld
    · cases hgranted
  · cases hgranted

/-- **What `clear` lets pass**: the tickets are of the grant that stands. -/
theorem clear_admission {admission : Text} {operation : String} {tickets : List Text} {grant : Grant H}
    (hclear : clear J admission operation tickets = .ok grant) :
    J.admission = some grant ∧ ∀ x ∈ tickets, x = grant.ticket := by
  obtain ⟨held, hgranted, hrest⟩ := bind_ok hclear
  dsimp only at hrest
  split at hrest
  · cases hrest
  rename_i hothers
  have htickets : ∀ x ∈ tickets, x = held.ticket := by simpa using hothers
  have hsame : held = grant := by
    split at hrest
    · cases hrest
    obtain ⟨reservation, -, hlast⟩ := bind_ok hrest
    split at hlast
    · cases hlast
    · exact Except.ok.inj hlast
  exact hsame ▸ ⟨granted_admission hgranted, htickets⟩

/-- **What a save does to the grant**: it keeps it, or leaves one that is unharmed, or it moves it. -/
theorem saves_grant (hdigest : Function.Injective h.digest) (hs : Saves h t meth J K) :
    (K.admission = J.admission ∧ K.goalTicket = J.goalTicket) ∨ Unharmed h K ∨ ∃ grant data, Moves h t J K grant data := by
  cases hs with
  | begun r control lead data reads binding id issuer reservation hread hrouted hexported hbound hadmits =>
    refine .inr (.inl fun grant hgrant => ?_)
    cases hgrant
    refine ⟨fun data' hdata q hq hdepends => ?_, hadmits.unit⟩
    refine hadmits.free (mem_excludedScope.2 ⟨q, hq, ?_⟩)
    exact (depends_fingerprint hdigest hdata).1 hdepends
  | moved grant before after reads hread hstands hexported hbeside =>
    obtain ⟨hadmission, htickets⟩ := clear_admission hstands.clear
    obtain rfl := htickets _ (List.mem_singleton_self _)
    refine .inr (.inr ⟨grant, before, hread, hadmission, hstands.exported, hstands.fingerprint, fun hu => ?_⟩)
    obtain ⟨hfree, hheld⟩ := hu grant hadmission
    intro grant' hgrant'
    cases hgrant'
    refine ⟨fun data hdata q hq hdepends => ?_, hheld⟩
    refine hfree before hstands.fingerprint q hq ?_
    exact (depends_beside hdigest hbeside).1 ((depends_fingerprint hdigest hdata).1 hdepends)
  | @completed ticket evidence closeout J record hnew =>
    by_cases hany : (J.admission.any fun g => decide (g.ticket = ticket)) = true
    · exact .inr (.inl (.of_none (if_pos hany)))
    · exact .inl ⟨if_neg hany, rfl⟩
  | «sealed» manifest => exact .inr (.inl (.of_none rfl))
  | intended session hreset hpending =>
    unfold intended
    cases J.nativeReceipt with
    | none => exact .inl ⟨rfl, rfl⟩
    | some accepted => exact .inl ⟨rfl, rfl⟩
  | booted session last reset frontier hreset hpending hpackage =>
    unfold booted
    split
    · exact .inr (.inl (.of_none rfl))
    · exact .inr (.inl (.of_none rfl))
  | recovered hfailed => exact .inr (.inl (.of_none rfl))
  | _ => exact .inl ⟨rfl, rfl⟩

/-! ## Runs -/

/-- **LIT is marked**: whoever reads a journal with the grant in this part of the log finds LIT other than the grant
records it. -/
def Marked (h : Host H) (K : Journal H) (log l : List (LEntry H)) : Prop :=
  ∀ grant, K.admission = some grant → ∀ r ∈ l, r.act = .reply .journal .done →
    (∃ J, Opens r.st.journal J ∧ J.admission = some grant) → ∀ data reads,
      Exported (trace r.frame log) grant.ticket data reads →
        fingerprint h.digest data grant.ticket K.goalTicket ≠ grant.fingerprint

/-- **Every quarantine shows**: a change that does not spare the grant has LIT marked from then on. -/
def Announced (h : Host H) (journal : JSlot H) (log : List (LEntry H)) : Prop :=
  ∀ l e older J K, log = l ++ e :: older → Opens ((journalLaw h).last journal older) J → Opens e.st.journal K →
    Spares h J K ∨ Marked h K log (l ++ [e])

/-- The grant was harmed at some point, and LIT is marked since. -/
def Harmed (h : Host H) (journal : JSlot H) (log older : List (LEntry H)) (J : Journal H) : Prop :=
  ∃ late e before B, log = late ++ e :: before ∧ e :: before <:+ older ∧ Opens ((journalLaw h).last journal before) B ∧
    ¬ Quarantined J B ∧ Marked h J log (late ++ [e])

/-- The harm stays with the grant. -/
theorem Harmed.later {older' : List (LEntry H)} (hh : Harmed h journal log older J) (hsuffix : older <:+ older')
    (hq : Quarantined J K) (hadmission : K.admission = J.admission) (hgoal : K.goalTicket = J.goalTicket) :
    Harmed h journal log older' K := by
  obtain ⟨late, e, before, B, hlog, hbefore, hB, hnot, hmarked⟩ := hh
  refine ⟨late, e, before, B, hlog, hbefore.trans hsuffix, hB, fun hK => hnot (hq.trans hK), fun grant hgrant => ?_⟩
  rw [hadmission] at hgrant
  rw [hgoal]
  exact hmarked grant hgrant

/-- **Who reads a journal with a grant that was harmed** finds LIT other than it records. -/
theorem Harmed.marked {r : LEntry H} {grant : Grant H} {reads : Reads} (hh : Harmed h journal log older J)
    (hlaw : Throughout ((journalLaw h).Lawful journal) log) (hr : r ∈ log) (hread : r.act = .reply .journal .done)
    (hJ : Opens r.st.journal J) (hgrant : J.admission = some grant) (hexported : Exported (trace r.frame log) grant.ticket data reads) :
    fingerprint h.digest data grant.ticket J.goalTicket ≠ grant.fingerprint := by
  obtain ⟨late, e, before, B, hlog, -, hB, hnot, hmarked⟩ := hh
  refine hmarked grant hgrant r ?_ hread ⟨J, hJ, hgrant⟩ data reads hexported
  rw [hlog] at hr hlaw
  rcases List.mem_append.1 hr with hlate | hpast
  · exact List.mem_append_left _ hlate
  rcases List.mem_cons.1 hpast with rfl | hbefore
  · exact List.mem_append_right _ (List.mem_singleton_self r)
  · -- what was read before the harm has nothing of the quarantine that harms
    obtain ⟨newer, past, rfl⟩ := List.append_of_mem hbefore
    have hsince : Throughout ((journalLaw h).Lawful journal) (newer ++ r :: past) := hlaw.suffix.2
    exact absurd (quarantined_since hsince hJ hB) hnot

/-- What an activation saw by some point of the log. -/
theorem trace_saw {i : ℕ} {x : LAct H} {q : Shelf H → Prop} (hx : Saw (trace i older) x q) (hsuffix : older <:+ log) :
    Saw (trace i log) x q := by
  obtain ⟨l, rfl⟩ := hsuffix
  rw [trace_append]
  exact hx.mono

/-- **One change keeps the grant unharmed**, or the harm that is marked. -/
theorem step_harmed (hdigest : Function.Injective h.digest) (hlaw : Throughout ((journalLaw h).Lawful journal) log)
    (hannounced : Announced h journal log) (hlog : log = l ++ e :: older)
    (hstep : Step h (trace e.frame older) ((journalLaw h).last journal older) e.st.journal)
    (hJ : Opens ((journalLaw h).last journal older) J) (hK : Opens e.st.journal K)
    (hold : Unharmed h J ∨ Harmed h journal log older J) : Unharmed h K ∨ Harmed h journal log (e :: older) K := by
  have hq : Quarantined J K := step_quarantined hstep hJ hK
  have hsuffix : older <:+ log := ⟨l ++ [e], by rw [hlog]; simp⟩
  obtain ⟨meth, L, hruns, hsaves, rfl⟩ := step_saves hstep hJ hK
  rcases saves_grant hdigest hsaves with ⟨hadmission, hgoal⟩ | hunharmed | ⟨grant, data, hmoves⟩
  · rcases hold with hunharmed | hharmed
    · by_cases hspares : Spares h J { L with reservations := some L.active }
      · exact .inl (hunharmed.spared hspares hadmission hgoal)
      · have hmarked := (hannounced l e older J _ hlog hJ hK).resolve_left hspares
        exact .inr ⟨l, e, older, J, hlog, List.suffix_refl _, hJ, not_spares hspares, hmarked⟩
    · exact .inr (hharmed.later (List.suffix_cons e older) hq hadmission hgoal)
  · exact .inl hunharmed
  · rcases hold with hunharmed | hharmed
    · exact .inl (hmoves.unharmed hunharmed)
    · -- the grant moves where LIT is as it records it, and that is not so any more
      obtain ⟨r, hr, hread, hopens⟩ := hmoves.read.read
      obtain ⟨holder, hframe⟩ := mem_trace.1 hr
      obtain ⟨reads, hexported⟩ := hmoves.exported
      have hseen : Exported (trace r.frame log) grant.ticket data reads := by
        rw [hframe]
        exact trace_saw hexported hsuffix
      exact absurd hmoves.fingerprint
        (hharmed.marked hlaw (hsuffix.subset holder) hread hopens hmoves.admission hseen)

/-- **Throughout the log** the grant is unharmed, or LIT is marked since it was harmed. -/
theorem unharmed_or_harmed (hdigest : Function.Injective h.digest) (hstart : ∀ J, Opens journal J → Unharmed h J)
    (hlaw : Throughout ((journalLaw h).Lawful journal) log) (hannounced : Announced h journal log) :
    ∀ older, older <:+ log → ∀ J, Opens ((journalLaw h).last journal older) J →
      Unharmed h J ∨ Harmed h journal log older J := by
  intro older
  induction older with
  | nil => exact fun _ J hJ => .inl (hstart J hJ)
  | cons e older ih =>
    rintro ⟨l, hlog⟩ K hK
    have hsuffix : older <:+ log := ⟨l ++ [e], by rw [← hlog]; simp⟩
    have hlawful : (journalLaw h).Lawful journal e older := by
      rw [← hlog] at hlaw
      exact hlaw.at
    rcases hlawful.step with hsame | hstep
    · have hlast : Opens ((journalLaw h).last journal older) K := hsame ▸ hK
      exact (ih hsuffix K hlast).imp_right fun hh => hh.later (List.suffix_cons e older) (.of_same rfl rfl) rfl rfl
    · rcases step_opens hstep hK with ⟨J, hJ⟩ | ⟨-, session, model, effort, goal, handoff, rfl⟩
      · exact step_harmed hdigest hlaw hannounced hlog.symm hstep hJ hK (ih hsuffix J hJ)
      · exact .inl (.of_none rfl)

/-- The journal was `J` before the activation began. -/
def Stood (h : Host H) (journal : JSlot H) (i : ℕ) (older : List (LEntry H)) (J : Journal H) : Prop :=
  ∃ l past, older = l ++ past ∧ (∀ d ∈ past, d.frame ≠ i) ∧ Opens ((journalLaw h).last journal past) J

/-- **What is admitted or cleared is not barred** by this journal, as LIT was read. -/
structure Heeds (h : Host H) (t : List (LEntry H)) (v : Value) (J : Journal H) : Prop where
  issued : ∀ b r, Runs t (.begin b) → v = .began r → ∃ data reads, Exported t b.ticket data reads ∧
    ¬ Bars J data b.ticket b.unit
  checked : ∀ admission operation tickets, Runs t (.check admission operation tickets) → ∃ J₀ grant data, HasRead t J₀ ∧
    Stands h t J₀ admission operation tickets grant data ∧ ¬ Bars J data grant.ticket grant.unit
  moved : ∀ admission operation ticket, Runs t (.transition admission operation ticket) → ∃ J₀ grant data, HasRead t J₀ ∧
    Stands h t J₀ admission operation [ticket] grant data ∧ ¬ Bars J data grant.ticket grant.unit

/-- What `begin` admits is not barred. -/
theorem Admits.not_bars {b : Begin} {control : Control} {lead : Row} {reservation : Json}
    (ha : Admits h b J control lead data reservation) : ¬ Bars J data b.ticket b.unit := by
  rintro (⟨q, hq, hdepends⟩ | hheld)
  · exact ha.free (mem_excludedScope.2 ⟨q, hq, hdepends⟩)
  · rw [ha.unit] at hheld
    cases hheld

/-- A grant that is unharmed is not barred. -/
theorem Stands.not_bars {admission : Text} {operation : String} {tickets : List Text} {grant : Grant H}
    (hs : Stands h t J admission operation tickets grant data) (hu : Unharmed h J) :
    ¬ Bars J data grant.ticket grant.unit := by
  obtain ⟨hfree, hheld⟩ := hu grant (clear_admission hs.clear).1
  rintro (⟨q, hq, hdepends⟩ | hheld')
  · exact hfree data hs.fingerprint q hq hdepends
  · rw [hheld] at hheld'
    cases hheld'

/-- What stood before an activation began is quarantined in the journal that it reads. -/
theorem Stood.quarantined {i : ℕ} (hlaw : Throughout ((journalLaw h).Lawful journal) older)
    (hstood : Stood h journal i older J) (hread : HasRead (trace i older) K) : Quarantined J K := by
  obtain ⟨new, past, rfl, hframes, hJ⟩ := hstood
  obtain ⟨r, hr, -, hopens⟩ := hread.read
  obtain ⟨hmem, hframe⟩ := mem_trace.1 hr
  rcases List.mem_append.1 hmem with hnew | hpast
  · obtain ⟨newer, late, rfl⟩ := List.append_of_mem hnew
    rw [List.append_assoc] at hlaw
    exact quarantined_since (l := r :: late) hlaw.suffix hJ hopens
  · exact absurd hframe (hframes r hpast)

/-- **What `check` and `transition` clear is not barred** by the journal that they read. -/
theorem cleared_not_bars {admission : Text} {operation : String} {tickets : List Text} {grant : Grant H}
    (hdigest : Function.Injective h.digest) (hstart : ∀ J, Opens journal J → Unharmed h J)
    (hlaw : Throughout ((journalLaw h).Lawful journal) log) (hannounced : Announced h journal log)
    (hlog : log = l ++ e :: older) (hread : HasRead (trace e.frame older) J)
    (hstands : Stands h (trace e.frame older) J admission operation tickets grant data) :
    ¬ Bars J data grant.ticket grant.unit := by
  have hsuffix : older <:+ log := ⟨l ++ [e], by rw [hlog]; simp⟩
  obtain ⟨r, hr, hact, hopens⟩ := hread.read
  obtain ⟨hmem, hframe⟩ := mem_trace.1 hr
  obtain ⟨newer, late, hlate⟩ := List.append_of_mem hmem
  have hlast : r :: late <:+ log := (List.suffix_append newer (r :: late)).trans (hlate ▸ hsuffix)
  rcases unharmed_or_harmed hdigest hstart hlaw hannounced (r :: late) hlast J hopens with hunharmed | hharmed
  · exact hstands.not_bars hunharmed
  · obtain ⟨reads, hexported⟩ := hstands.exported
    have hseen : Exported (trace r.frame log) grant.ticket data reads := by
      rw [hframe]
      exact trace_saw hexported hsuffix
    have hgrant := (clear_admission hstands.clear).1
    exact absurd hstands.fingerprint (hharmed.marked hlaw (hsuffix.subset hmem) hact hopens hgrant hseen)

variable [DecidableEq H] {sha256 : Text → Text} {control : Slot (Written Control)} {c : LConfig H}

/-- **Quarantine.** In every run in which each quarantine that harms a grant shows in LIT, whatever `begin`, `check` or
`transition` admits or clears is not barred by any journal that stood before it began. -/
theorem quarantine_holds (hdigest : Function.Injective h.digest) (hstart : ∀ J, Opens journal J → Unharmed h J)
    (hc : (loop h sha256).Reachable (shelf journal control) c) (hannounced : Announced h journal c.w.log) :
    ∀ l e older, c.w.log = l ++ e :: older → ∀ v, e.act = .ret (.ok v) → ∀ J, Stood h journal e.frame older J →
      Heeds h (trace e.frame older) v J := by
  intro l e older hlog v hv J hstood
  have hinv := loop_kept.sound hc
  have hlaw : Throughout ((journalLaw h).Lawful journal) c.w.log := hinv.lawful
  have howes := (hinv.at hlog).owes v hv
  have holder : Throughout ((journalLaw h).Lawful journal) older := by
    rw [hlog] at hlaw
    exact hlaw.suffix.2
  refine ⟨fun b r hruns hbegan => ?_, fun admission operation tickets hruns => ?_, fun admission operation ticket hruns => ?_⟩
  · obtain ⟨J₀, control, lead, data, reads, reservation, hread, -, hexported, hadmits, -⟩ := howes.issued b r hruns hbegan
    exact ⟨data, reads, hexported, fun hbars => hadmits.not_bars (hbars.mono (hstood.quarantined holder hread))⟩
  · obtain ⟨J₀, grant, data, hread, hstands⟩ := howes.checked admission operation tickets hruns
    refine ⟨J₀, grant, data, hread, hstands, fun hbars => ?_⟩
    exact cleared_not_bars hdigest hstart hlaw hannounced hlog hread hstands (hbars.mono (hstood.quarantined holder hread))
  · obtain ⟨J₀, grant, data, hread, hstands⟩ := howes.moved admission operation ticket hruns
    refine ⟨J₀, grant, data, hread, hstands, fun hbars => ?_⟩
    exact cleared_not_bars hdigest hstart hlaw hannounced hlog hread hstands (hbars.mono (hstood.quarantined holder hread))

namespace Example

/-- A grant for the ticket, as LIT is. -/
def grant : Grant Hashed :=
  ⟨['i'], ['A'], hashed ticketed ['A'] ['G'], [], false, ⟨[], []⟩, 1, none, writer "A" "ann" "ray" "/a" "src/",
    ["implementation"], [], [], none⟩

/-- A journal with that grant. -/
def standing : Journal Hashed :=
  { begun with
    reservations := some [writer "A" "ann" "ray" "/a" "src/"]
    admission := some grant }

/-- What the gate gives once the accepted findings of a pass stay unfixed. -/
def unfixed : Facts := { facts with reducer := { facts.reducer with unfixed := 2 } }

/-- An export of another ticket. -/
def another : Export := ⟨[⟨['B'], [("status", .str "open")]⟩], [], []⟩

/-- The grant stands, and nothing but another ticket is quarantined. -/
def IsBeside (J : Journal Hashed) : Prop :=
  J.admission = some grant ∧ J.goalTicket = ['G'] ∧ J.quarantine ⊆ [['B']] ∧ J.unitQuarantine = []

instance (J : Journal Hashed) : Decidable (IsBeside J) := by
  unfold IsBeside
  infer_instance

/-- All that is shown is beside the grant, and at last something is cleared. -/
def isBeside (c : LConfig Hashed) : Bool :=
  c.w.log.all fun e =>
    match e.st.journal with
    | .holding f => f.value.opened.all fun J => decide (IsBeside J)
    | _ => true

theorem isBeside_opens {c : LConfig Hashed} (ht : isBeside c = true) {e : LEntry Hashed} (he : e ∈ c.w.log)
    {J : Journal Hashed} (hJ : Opens e.st.journal J) : IsBeside J := by
  obtain ⟨f, hf, hopened⟩ := hJ
  have hall := List.all_eq_true.1 ht e he
  rw [hf] at hall
  dsimp only at hall
  rw [hopened] at hall
  exact of_decide_eq_true hall

/-- In LIT as the grant records it, the ticket depends on nothing else. -/
theorem not_depends {data : Export} (hdata : fingerprint host.digest data ['A'] ['G'] = grant.fingerprint) :
    ¬ Depends data ['A'] ['B'] := by
  intro hdepends
  have hsame : fingerprint host.digest data ['A'] ['G'] = fingerprint host.digest ticketed ['A'] ['G'] := hdata
  have hticketed : Depends ticketed ['A'] ['B'] := (depends_fingerprint Function.injective_id hsame).1 hdepends
  rcases Relation.ReflTransGen.cases_head hticketed with hsame | ⟨b, ⟨r, hr, -⟩, -⟩
  · cases hsame
  · cases hr

theorem IsBeside.unharmed {J : Journal Hashed} (hJ : IsBeside J) : Unharmed host J := by
  obtain ⟨hadmission, hgoal, hquarantine, hunits⟩ := hJ
  intro held hheld
  rw [hadmission] at hheld
  cases hheld
  refine ⟨fun data hdata q hq hdepends => ?_, ?_⟩
  · rw [hgoal] at hdata
    rw [List.mem_singleton.1 (hquarantine hq)] at hdepends
    exact not_depends hdata hdepends
  · unfold isUnitHeld
    rw [hunits]
    rfl

theorem IsBeside.spares {J K : Journal Hashed} (hJ : IsBeside J) (hK : IsBeside K) : Spares host J K := by
  intro held hheld
  have hgrant : K.admission = some held := hK.1.trans (hJ.1.symm.trans hheld)
  obtain ⟨hfree, hunit⟩ := hK.unharmed held hgrant
  rw [hK.2.1, ← hJ.2.1] at hfree
  exact ⟨fun q hq _ data hdata => hfree data hdata q hq, fun _ => hunit⟩

/-- A check cleared a ticket at last, that was quarantined before it began, `old` entries after the start. -/
def clears (old : ℕ) (c : LConfig Hashed) : Bool :=
  match c.w.log with
  | ⟨i, .ret (.ok (.checked v)), _⟩ :: older =>
    ((older.drop (older.length - old)).all fun d => decide (d.frame ≠ i)) &&
      match (journalLaw host).last (.holding (published standing)) (older.drop (older.length - old)) with
      | .holding f => f.value.opened.any fun J => J.quarantine.contains v.ticket
      | _ => false
  | _ => false

end Example

/-- Another ticket is quarantined while the grant stands, and the check clears its own. -/
theorem quarantine_holds_beside :
    ∃ c : LConfig Hashed,
      (loop Example.host id).Reachable (shelf (.holding (published Example.standing)) (.holding (published Example.routing))) c ∧
        ∀ l e older, c.w.log = l ++ e :: older → ∀ v, e.act = .ret (.ok v) →
          ∀ J, Stood Example.host (.holding (published Example.standing)) e.frame older J →
            Heeds Example.host (trace e.frame older) v J := by
  obtain ⟨c, hc, ht⟩ := Machine.Reachable.of_run (loop Example.host id)
    (shelf (.holding (published Example.standing)) (.holding (published Example.routing)))
    [.invoke (.review ['B'] ['p'] ['x'] [] none), .reply .done, .reply .done, .reply (.exported Example.another ⟨[], []⟩),
      .reply (.facts Example.unfixed), .reply (.pass (some ['2'])), .reply .done, .reply .done, .reply .done, .reply .done,
      .invoke (.check ['i'] "implementation" [['A']]), .reply .done, .reply .done,
      .reply (.exported Example.ticketed ⟨[], []⟩), .reply .done]
    Example.isBeside (by decide +kernel)
  have hopens : Opens (.holding (published Example.standing)) Example.standing := ⟨_, rfl, rfl⟩
  have hbeside : Example.IsBeside Example.standing := by decide
  have hshown : ∀ older J, (∃ l, c.w.log = l ++ older) →
      Opens ((journalLaw Example.host).last (.holding (published Example.standing)) older) J → Example.IsBeside J := by
    rintro older J ⟨l, hlog⟩ hJ
    cases older with
    | nil => exact hJ.unique hopens ▸ hbeside
    | cons e older => exact Example.isBeside_opens ht (by rw [hlog]; simp) hJ
  have hstart : ∀ J, Opens (.holding (published Example.standing)) J → Unharmed Example.host J := by
    intro J hJ
    exact hJ.unique hopens ▸ hbeside.unharmed
  refine ⟨c, hc, quarantine_holds Function.injective_id hstart hc ?_⟩
  intro l e older J K hlog hJ hK
  have hJ' : Example.IsBeside J := hshown older J ⟨l ++ [e], by rw [hlog]; simp⟩ hJ
  have hK' : Example.IsBeside K := Example.isBeside_opens ht (by rw [hlog]; simp) hK
  exact .inl (hJ'.spares hK')

/-- The review quarantines the ticket of the grant and fails to label it, and then a check clears the ticket. -/
theorem clears_quarantined :
    ∃ (c : LConfig Hashed) (e : LEntry Hashed) (older : List (LEntry Hashed)) (J : Journal Hashed) (v : Checked),
      (loop Example.host id).Reachable (shelf (.holding (published Example.standing)) (.holding (published Example.routing))) c ∧
        c.w.log = e :: older ∧ e.act = .ret (.ok (.checked v)) ∧
          Stood Example.host (.holding (published Example.standing)) e.frame older J ∧ v.ticket ∈ J.quarantine := by
  obtain ⟨c, hc, ht⟩ := Machine.Reachable.of_run (loop Example.host id)
    (shelf (.holding (published Example.standing)) (.holding (published Example.routing)))
    [.invoke (.review ['A'] ['p'] ['x'] [] none), .reply .done, .reply .done, .reply (.exported Example.ticketed ⟨[], []⟩),
      .reply (.facts Example.unfixed), .reply (.pass (some ['2'])), .reply .done, .reply .done, .reply .raised,
      .invoke (.check ['i'] "implementation" [['A']]), .reply .done, .reply .done,
      .reply (.exported Example.ticketed ⟨[], []⟩), .reply .done]
    (Example.clears 18) (by decide +kernel)
  unfold Example.clears at ht
  split at ht
  · rename_i i v s older hlog
    obtain ⟨hframes, hlast⟩ := Bool.and_eq_true_iff.1 ht
    split at hlast
    · rename_i f hpast
      obtain ⟨J, hJ, hmem⟩ := (Option.any_eq_true _ _).1 hlast
      refine ⟨c, _, older, J, v, hc, hlog, rfl, ?_, List.contains_iff_mem.1 hmem⟩
      refine ⟨_, _, (List.take_append_drop (older.length - 18) older).symm, fun d hd => ?_, f, ?_, hJ⟩
      · exact of_decide_eq_true (List.all_eq_true.1 hframes d hd)
      · exact hpast
    · cases hlast
  · cases ht

end Loop

end Arhugula
