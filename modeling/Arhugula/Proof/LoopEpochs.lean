import Arhugula.Proof.LoopReservations

/-!
# The accounts of the epochs

Completions are added, one for each ticket. The epoch rises with a package that is put away: `epoch` plus one for
a package that is sealed rises with a new package only.
-/

namespace Arhugula

namespace Loop

open Reentrant Durable Strings Lit

variable {H : Type} {h : Host H} {J J' K : Journal H} {t : List (LEntry H)} {meth : Method H} {s s' : JSlot H}

/-! ## One change -/

/-- The ticket joins the completions, or nothing does. -/
def Grows (J J' : Journal H) : Prop :=
  J'.completed = J.completed ∨
    ∃ ticket record, J.completed.find ticket = none ∧ J'.completed = J.completed ++ [(ticket, record)]

/-- An operation that may begin an epoch: a bootstrap of a package that is not automatic, or an acknowledgement. -/
def Begins (t : List (LEntry H)) (J : Journal H) : Prop :=
  (∃ transcript deadline reset frontier, Runs t (.bootstrap transcript deadline) ∧ J.reset = some reset ∧
    Packaged t reset frontier ∧ frontier.automatic = false) ∨
  ∃ receipt deadline, Runs t (.acknowledge receipt deadline)

/-- A bootstrap that read automatic packages only, or a maintenance recovery. -/
def Provisional (t : List (LEntry H)) : Prop :=
  (∃ transcript deadline, Runs t (.bootstrap transcript deadline) ∧
    ∀ reset frontier, Packaged t reset frontier → frontier.automatic = true) ∨
  ∃ tr, Runs t (.recoverMaintenance tr)

/-- The accounts are the same. -/
structure SameAccounts (J J' : Journal H) : Prop where
  epoch : J'.epoch = J.epoch
  epochStart : J'.epochStart = J.epochStart
  completed : J'.completed = J.completed
  quarantine : J'.quarantine = J.quarantine
  unitQuarantine : J'.unitQuarantine = J.unitQuarantine
  reviews : J'.reviews = J.reviews

/-- **What one change does to the accounts.** -/
structure Accounts (t : List (LEntry H)) (J J' : Journal H) : Prop where
  grows : Grows J J'
  epoch : J'.epoch = J.epoch ∧ J'.epochStart = J.epochStart ∨
    J'.epoch = J.epoch + 1 ∧ J'.epochStart = J'.completed.length ∧ J.reset.isSome = true ∧ J'.reset = none ∧ Begins t J
  provisional : Provisional t → SameAccounts J J'

/-- A change of something else. -/
theorem SameAccounts.accounts (hs : SameAccounts J J') : Accounts t J J' where
  grows := .inl hs.completed
  epoch := .inl ⟨hs.epoch, hs.epochStart⟩
  provisional _ := hs

theorem SameAccounts.refl (J : Journal H) : SameAccounts J J := ⟨rfl, rfl, rfl, rfl, rfl, rfl⟩

theorem find_none_iff {β : Type} {d : Dict β} {key : Text} : d.find key = none ↔ key ∉ d.keys := by
  simp only [Dict.find, Dict.keys, Option.map_eq_none_iff, List.find?_eq_none, decide_eq_true_eq, List.mem_map, not_exists,
    not_and]

theorem put_new {β : Type} {d : Dict β} {key : Text} {value : β} (hnew : d.find key = none) :
    d.put key value = d ++ [(key, value)] := by
  unfold Dict.put
  rw [find_none_iff] at hnew
  refine if_neg fun hany => hnew ?_
  obtain ⟨m, hm, heq⟩ := List.any_eq_true.1 hany
  exact List.mem_map.2 ⟨m, hm, of_decide_eq_true heq⟩

/-- A provisional operation is a bootstrap or a recovery. -/
theorem Provisional.runs (hp : Provisional t) (hr : Runs t meth) :
    (∃ transcript deadline, meth = .bootstrap transcript deadline) ∨ ∃ tr, meth = .recoverMaintenance tr := by
  rcases hp with ⟨transcript, deadline, hb, -⟩ | ⟨tr, hb⟩
  · exact .inl ⟨transcript, deadline, hr.unique hb⟩
  · exact .inr ⟨tr, hr.unique hb⟩

/-- **The accounts after each save.** -/
theorem saves_accounts (hr : Runs t meth) (hs : Saves h t meth J J') : Accounts t J J' := by
  cases hs with
  | completed record hnew =>
    refine ⟨.inr ⟨_, record, hnew, put_new hnew⟩, .inl ⟨rfl, rfl⟩, fun hp => ?_⟩
    rcases hp.runs hr with ⟨_, _, hm⟩ | ⟨_, hm⟩ <;> cases hm
  | reviewed result g head next harc hresult hevaluate =>
    refine ⟨.inl rfl, .inl ⟨rfl, rfl⟩, fun hp => ?_⟩
    rcases hp.runs hr with ⟨_, _, hm⟩ | ⟨_, hm⟩ <;> cases hm
  | intended session hreset hpending =>
    refine SameAccounts.accounts ?_
    unfold intended
    cases J.nativeReceipt with
    | none => exact ⟨rfl, rfl, rfl, rfl, rfl, rfl⟩
    | some accepted => exact ⟨rfl, rfl, rfl, rfl, rfl, rfl⟩
  | booted session last reset frontier hreset hpending hpackage =>
    cases hauto : frontier.automatic with
    | true => exact SameAccounts.accounts ⟨rfl, rfl, rfl, rfl, rfl, rfl⟩
    | false =>
      refine ⟨.inl rfl, .inr ⟨rfl, rfl, by rw [hreset]; rfl, rfl, ?_⟩, fun hp => ?_⟩
      · exact .inl ⟨_, _, reset, frontier, hr, hreset, hpackage, hauto⟩
      · rcases hp with ⟨_, _, -, hall⟩ | ⟨_, hb⟩
        · rw [hall reset frontier hpackage] at hauto
          cases hauto
        · cases hr.unique hb
  | acknowledged session bound acceptance hpending hreset =>
    refine ⟨.inl rfl, .inr ⟨rfl, rfl, hreset, rfl, .inr ⟨_, _, hr⟩⟩, fun hp => ?_⟩
    rcases hp.runs hr with ⟨_, _, hm⟩ | ⟨_, hm⟩ <;> cases hm
  | recovered hfailed =>
    rw [hfailed]
    exact SameAccounts.accounts ⟨rfl, rfl, rfl, rfl, rfl, rfl⟩
  | _ => exact SameAccounts.accounts ⟨rfl, rfl, rfl, rfl, rfl, rfl⟩

/-! ## Runs -/

/-- The accounts are in order: each ticket completed once, and the epoch began within them. -/
structure InOrder (J : Journal H) : Prop where
  once : J.completed.keys.Nodup
  start : 0 ≤ J.epochStart
  begun : J.epochStart ≤ J.completed.length

theorem Grows.completed_prefix (hg : Grows J J') : J.completed <+: J'.completed := by
  rcases hg with heq | ⟨ticket, record, -, heq⟩
  · rw [heq]
  · rw [heq]
    exact List.prefix_append _ _

theorem Accounts.inOrder (ha : Accounts t J J') (ho : InOrder J) : InOrder J' := by
  have hlength := ha.grows.completed_prefix.length_le
  have hbegun := ho.begun
  refine ⟨?_, ?_, ?_⟩
  · rcases ha.grows with heq | ⟨ticket, record, hnew, heq⟩
    · rw [heq]
      exact ho.once
    · rw [heq]
      have hfresh := find_none_iff.1 hnew
      unfold Dict.keys at hfresh ⊢
      rw [List.map_append, List.nodup_append]
      refine ⟨ho.once, List.nodup_singleton _, fun a hmem b hb heq => ?_⟩
      rw [List.map_singleton, List.mem_singleton] at hb
      rw [heq, hb] at hmem
      exact hfresh hmem
  · rcases ha.epoch with ⟨-, hstart⟩ | ⟨-, hstart, -⟩
    · rw [hstart]
      exact ho.start
    · rw [hstart]
      omega
  · rcases ha.epoch with ⟨-, hstart⟩ | ⟨-, hstart, -⟩
    · rw [hstart]
      omega
    · rw [hstart]

/-- What the path shows is in order. -/
def IsInOrder (s : JSlot H) : Prop := ∀ J, Opens s J → InOrder J

/-- **A change between two journals that are there.** -/
theorem step_accounts (hstep : Step h t s s') (hJ : Opens s J) (hK : Opens s' K) : Accounts t J K := by
  obtain ⟨meth, L, hruns, hsaves, rfl⟩ := step_saves hstep hJ hK
  -- what is read again differs in the reservations only
  have ha := saves_accounts hruns hsaves
  exact ⟨ha.grows, ha.epoch, fun hp => ⟨(ha.provisional hp).epoch, (ha.provisional hp).epochStart,
    (ha.provisional hp).completed, (ha.provisional hp).quarantine, (ha.provisional hp).unitQuarantine,
    (ha.provisional hp).reviews⟩⟩

theorem step_inOrder (hstep : Step h t s s') (hs : IsInOrder s) : IsInOrder s' :=
  step_keeps (fun _ _ _ _ _ => ⟨.nil, le_refl 0, le_refl 0⟩) (fun _ hk => ⟨hk.once, hk.start, hk.begun⟩)
    (fun _ _ _ _ hruns hsaves hj => (saves_accounts hruns hsaves).inOrder hj) hstep hs

/-! ## Packages -/

/-- The package that a path shows. -/
def package : JSlot H → Option Reset
  | .holding f => f.value.reset
  | _ => none

/-- Another package is sealed. -/
def isSealed (s s' : JSlot H) : Bool := (package s').isSome && package s' ≠ package s

/-- **How many packages were sealed** over some entries, newest first, of a log that stood at `s`. -/
def packages (h : Host H) (s : JSlot H) : List (LEntry H) → ℕ
  | [] => 0
  | e :: l => packages h s l + if isSealed ((journalLaw h).last s l) e.st.journal then 1 else 0

theorem package_of (hJ : Opens s J) : package s = J.reset := by
  obtain ⟨f, rfl, hf⟩ := hJ
  rw [opened_keeps hf]
  rfl

/-- The epoch, and one for a package that is sealed. -/
def charge (J : Journal H) : ℤ := J.epoch + if J.reset.isSome then 1 else 0

theorem epoch_le_charge : J.epoch ≤ charge J := by
  unfold charge
  split <;> omega

/-- **The charge rises with a new package only.** -/
theorem Accounts.charge_le (ha : Accounts t J J') (hJ : Opens s J) (hJ' : Opens s' J') :
    charge J' ≤ charge J + if isSealed s s' then 1 else 0 := by
  unfold charge isSealed
  rw [package_of hJ, package_of hJ']
  rcases ha.epoch with ⟨hepoch, -⟩ | ⟨hepoch, -, hsealed, hnone, -⟩
  · by_cases hsome : J'.reset.isSome = true
    · by_cases hold : J.reset.isSome = true
      · rw [hepoch, if_pos hsome, if_pos hold]
        split <;> omega
      · have hnew : J'.reset ≠ J.reset := fun heq => hold (heq ▸ hsome)
        simp [hepoch, hsome, hold, hnew]
    · rw [hepoch, if_neg hsome]
      split <;> split <;> omega
  · simp [hepoch, hsealed, hnone]

/-- What stands between a journal that was read, and one that is there since. -/
structure Since (h : Host H) (s s' : JSlot H) (l : List (LEntry H)) : Prop where
  absent : s' = .absent → s = .absent
  opens : ∀ K, Opens s' K → s = .absent ∨ ∃ J, Opens s J ∧ J.completed <+: K.completed ∧ J.epoch ≤ K.epoch ∧
    charge K ≤ charge J + packages h s l

theorem Since.refl (s : JSlot H) : Since h s s [] where
  absent hs := hs
  opens K hK := .inr ⟨K, hK, List.prefix_rfl, le_refl _, by simp [packages]⟩

/-- One more entry. -/
theorem Since.entry {l : List (LEntry H)} {e : LEntry H} (hs : Since h s s' l) (hlast : (journalLaw h).last s l = s')
    (hstep : e.st.journal = s' ∨ Step h t s' e.st.journal) : Since h s e.st.journal (e :: l) := by
  have hpackages : packages h s (e :: l) = packages h s l + if isSealed s' e.st.journal then 1 else 0 := by
    rw [packages, hlast]
  rcases hstep with hsame | hstep
  · rw [hsame]
    refine ⟨hs.absent, fun K hK => ?_⟩
    rcases hs.opens K hK with habsent | ⟨J, hJ, hgrown, hepoch, hcharge⟩
    · exact .inl habsent
    · refine .inr ⟨J, hJ, hgrown, hepoch, ?_⟩
      rw [hpackages]
      omega
  · refine ⟨fun habsent => absurd habsent (step_present hstep), fun K hK => ?_⟩
    rcases step_opens hstep hK with ⟨L, hL⟩ | ⟨habsent, -⟩
    swap
    · exact .inl (hs.absent habsent)
    rcases hs.opens L hL with habsent | ⟨J, hJ, hgrown, hepoch, hcharge⟩
    · exact .inl habsent
    have ha := step_accounts hstep hL hK
    have hle := ha.charge_le hL hK
    refine .inr ⟨J, hJ, hgrown.trans ha.grows.completed_prefix, ?_, ?_⟩
    · rcases ha.epoch with ⟨heq, -⟩ | ⟨heq, -⟩
      · omega
      · omega
    · rw [hpackages]
      by_cases hsealed : isSealed s' e.st.journal = true
      · rw [if_pos hsealed] at hle ⊢
        push_cast
        omega
      · rw [if_neg hsealed] at hle ⊢
        omega

variable [DecidableEq H] {sha256 : Text → Text} {journal : JSlot H} {control : Slot (Written Control)} {c : LConfig H}

/-- **Epoch accounting.** In every reachable configuration, in whatever order the operations ran and crashed: the
accounts are in order; each change is one of `Accounts`; and since any journal of the past the completions only
grew, and the epoch rose at most once for each package that was sealed, one that was sealed then included. -/
theorem epoch_accounting (hstart : IsInOrder journal) (hc : (loop h sha256).Reachable (shelf journal control) c) :
    (∀ J, Opens c.w.st.journal J → InOrder J) ∧
    (∀ l e older, c.w.log = l ++ e :: older → ∀ J J', Opens ((journalLaw h).last journal older) J →
      Opens e.st.journal J' → J' = J ∨ Accounts (trace e.frame older) J J') ∧
    ∀ l older, c.w.log = l ++ older → ∀ J J', Opens ((journalLaw h).last journal older) J → Opens c.w.st.journal J' →
      J.completed <+: J'.completed ∧ J.epoch ≤ J'.epoch ∧
        J'.epoch ≤ J.epoch + (if J.reset.isSome then 1 else 0) + packages h ((journalLaw h).last journal older) l := by
  have hinv := loop_kept.sound hc
  refine ⟨?_, fun l e older hlog J J' hJ hJ' => ?_, fun l older hlog J J' hJ hJ' => ?_⟩
  · exact (hinv.all hstart fun t j j' hs hstep => step_inOrder hstep hs).2
  · rcases (hinv.at hlog).step with hsame | hstep
    · have heq : e.st.journal = (journalLaw h).last journal older := hsame
      rw [heq] at hJ'
      exact .inl (hJ'.unique hJ)
    · exact .inr (step_accounts hstep hJ hJ')
  · have hsince : Since h ((journalLaw h).last journal older) c.w.st.journal l := by
      refine hinv.since hlog (P := fun l s => Since h ((journalLaw h).last journal older) s l) (Since.refl _) ?_
      intro e l hl hlawful
      have hstep := hlawful.step
      rw [Law.last_append] at hl hstep
      exact hl.entry rfl hstep
    rcases hsince.opens J' hJ' with habsent | ⟨K, hK, hgrown, hepoch, hcharge⟩
    · rw [habsent] at hJ
      obtain ⟨f, hf, -⟩ := hJ
      cases hf
    · obtain rfl := hK.unique hJ
      have hle := epoch_le_charge (J := J')
      refine ⟨hgrown, hepoch, ?_⟩
      unfold charge at hcharge hle
      omega

namespace Example

/-- A journal that awaits the receipt of an automatic bootstrap. -/
def awaiting : Journal Hashed :=
  { begun with
    reset := some ⟨[], ⟨[], [], 0⟩, "s".toList, none⟩
    pendingBootstrap := some "n".toList
    startupRequired := some true
    startupReceipt := some none
    awaitingNativeReceipt := some true
    lastBootstrap := some ⟨0, ⟨[], []⟩, [], ⟨[], [], 0⟩, [], [], []⟩ }

/-- The receipt of that bootstrap. -/
def proof : Proof := ⟨.bool false, .str "provisional", some "n".toList, ⟨[], [], 0⟩, [], 60, 1⟩

/-- What a journal shows, if it is one. -/
def shows (test : Journal Hashed → Bool) (c : LConfig Hashed) : Bool :=
  match c.w.st.journal with
  | .holding f => f.value.opened.any test
  | _ => false

theorem shows_opens {test : Journal Hashed → Bool} {c : LConfig Hashed} (ht : shows test c = true) :
    ∃ J, Opens c.w.st.journal J ∧ test J = true := by
  unfold shows at ht
  cases hj : c.w.st.journal with
  | holding f =>
    rw [hj] at ht
    obtain ⟨J, hJ, hrest⟩ := (Option.any_eq_true _ _).1 ht
    exact ⟨J, ⟨f, rfl, hJ⟩, hrest⟩
  | _ =>
    rw [hj] at ht
    cases ht

theorem awaiting_opens : Opens (.holding (published awaiting)) awaiting := ⟨_, rfl, rfl⟩

end Example

/-- An acknowledgement begins the epoch of the package that was sealed. -/
theorem epoch_accounting_acknowledged :
    ∃ (c : LConfig Hashed) (J : Journal Hashed),
      (loop Example.host id).Reachable (shelf (.holding (published Example.awaiting)) .absent) c ∧
        Opens c.w.st.journal J ∧ J.epoch = 1 ∧ InOrder J ∧ Example.awaiting.completed <+: J.completed ∧
          J.epoch ≤ Example.awaiting.epoch + 1 + packages Example.host (.holding (published Example.awaiting)) c.w.log := by
  obtain ⟨c, hc, ht⟩ := Machine.Reachable.of_run (loop Example.host id)
    (shelf (.holding (published Example.awaiting)) .absent)
    [.invoke (.acknowledge [] none), .reply .done, .reply .done, .reply (.proof Example.proof), .reply (.binding ⟨[], [], 0⟩),
      .reply .done, .reply .done, .reply (.time 0), .reply .done, .reply .done]
    (Example.shows fun J => decide (J.epoch = 1)) (by decide +kernel)
  obtain ⟨J, hJ, hepoch⟩ := Example.shows_opens ht
  have hstart : IsInOrder (.holding (published Example.awaiting)) := by
    intro K hK
    rw [hK.unique Example.awaiting_opens]
    exact ⟨.nil, le_refl 0, le_refl 0⟩
  obtain ⟨hinOrder, -, hsince⟩ := epoch_accounting hstart hc
  obtain ⟨hgrown, -, hle⟩ := hsince c.w.log [] (List.append_nil _).symm Example.awaiting J Example.awaiting_opens hJ
  exact ⟨c, J, hc, hJ, of_decide_eq_true hepoch, hinOrder J hJ, hgrown, hle⟩

end Loop

end Arhugula
