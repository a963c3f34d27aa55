import Arhugula.Spec.Contracts
import Arhugula.Spec.GoalLineage

/-!
# What the goal ledger keeps

A ledger only grows (`Extends`): its contract stays, no thread and no total falls, and receipts are added at the end. It
is sound (`Sound`): its totals are what its threads come to, and nothing is in it twice. A call that is refused leaves
the disk as it is, and one that is not extends a sound ledger by a sound one (`proposed_extends`); the rest follows by
induction over the calls.

A recovery report is compared with every earlier one of its session, which is read again from its receipt. The receipt
is bound by its digest, so it says what it said when it was recorded, unless digests collide (`Distinguishes`).
-/

namespace Arhugula

namespace GoalLineage

open Watch Sequence

variable {h : Host} {files : Files} {busy : Bool} {ledger : Option Ledger} {receipt deadline session : Str}
  {l l' l'' : Ledger} {goal objective : Watch.Json} {usage : Usage} {bound : Binding}

/-! ## Growth -/

/-- Usage that is not less. -/
instance : LE Usage := ⟨fun u v => u.tokensUsed ≤ v.tokensUsed ∧ u.timeUsedSeconds ≤ v.timeUsedSeconds⟩

/-- A ledger that another grew to. -/
structure Extends (l l' : Ledger) : Prop where
  objective : l'.objective = l.objective
  deadline : l'.deadline = l.deadline
  threads : ∀ thread u, l.threads.find thread = some u → ∃ u', l'.threads.find thread = some u' ∧ u ≤ u'
  tokens : l.tokensUsed ≤ l'.tokensUsed
  seconds : l.secondsUsed ≤ l'.secondsUsed
  receipts : l.receipts <+: l'.receipts
  absent : l.absentGoals <+: l'.absentGoals
  recovery : l.recoveryGoals <+: l'.recoveryGoals

/-- A ledger whose totals are those of its threads, and that has nothing twice. -/
structure Sound (l : Ledger) : Prop where
  threads : l.threads.keys.Nodup
  tokens : l.tokensUsed = l.threads.total Usage.tokensUsed
  seconds : l.secondsUsed = l.threads.total Usage.timeUsedSeconds
  receipts : l.receipts.Nodup
  absent : l.absentGoals.Nodup
  recovery : l.recoveryGoals.Nodup

theorem Extends.refl (l : Ledger) : Extends l l where
  objective := rfl
  deadline := rfl
  threads := fun _ u hu => ⟨u, hu, Nat.le_refl _, Nat.le_refl _⟩
  tokens := Nat.le_refl _
  seconds := Nat.le_refl _
  receipts := List.prefix_refl _
  absent := List.prefix_refl _
  recovery := List.prefix_refl _

theorem Extends.trans (hx : Extends l l') (hy : Extends l' l'') : Extends l l'' where
  objective := hy.objective.trans hx.objective
  deadline := hy.deadline.trans hx.deadline
  threads := by
    intro thread u hu
    obtain ⟨u', hu', hle⟩ := hx.threads thread u hu
    obtain ⟨u'', hu'', hle'⟩ := hy.threads thread u' hu'
    exact ⟨u'', hu'', le_trans hle.1 hle'.1, le_trans hle.2 hle'.2⟩
  tokens := hx.tokens.trans hy.tokens
  seconds := hx.seconds.trans hy.seconds
  receipts := hx.receipts.trans hy.receipts
  absent := hx.absent.trans hy.absent
  recovery := hx.recovery.trans hy.recovery

section

variable {α : Type} [DecidableEq α] {items : List α} {item : α}

theorem prefix_appendNew : items <+: appendNew items item := by
  unfold appendNew
  split
  · exact List.prefix_refl _
  · exact List.prefix_append _ _

theorem mem_appendNew : item ∈ appendNew items item := by
  unfold appendNew
  split
  · assumption
  · exact List.mem_append_right _ (List.mem_singleton_self _)

theorem nodup_appendNew (hi : items.Nodup) : (appendNew items item).Nodup := by
  unfold appendNew
  split
  · exact hi
  · rename_i hnew
    apply List.nodup_append.2
    refine ⟨hi, List.nodup_singleton _, ?_⟩
    intro a ha b hb heq
    rw [List.mem_singleton.1 hb] at heq
    exact hnew (heq ▸ ha)

end

/-! ## Receipts -/

theorem fileBinding_ok (hb : fileBinding h files receipt = .ok bound) :
    ∃ bytes, files receipt = some bytes ∧ bound = ⟨receipt, bytes.length, h.sha256 bytes⟩ := by
  unfold fileBinding at hb
  split at hb
  · cases hb
  · rename_i bytes hbytes
    cases hb
    exact ⟨bytes, hbytes, rfl⟩

theorem verify_ok {text : String} {bs : List Binding} (hv : verify h files text bs = .ok ()) :
    ∀ b ∈ bs, fileBinding h files b.path = .ok b := by
  induction bs with
  | nil =>
    intro b hb
    cases hb
  | cons b bs ih =>
    obtain ⟨now, hnow, hrest⟩ := bind_ok hv
    by_cases hsame : now = b
    · rw [if_neg (not_not.2 hsame)] at hrest
      intro b' hb'
      rcases List.mem_cons.1 hb' with rfl | hmem
      · rw [← hsame]
        rw [hsame] at hnow ⊢
        exact hnow
      · exact ih hrest b' hmem
    · rw [if_pos hsame] at hrest
      cases hrest

theorem existing_ok (he : existing h files ledger deadline = .ok l) :
    ledger = some l ∧ l.deadline = deadline ∧ (∀ b ∈ l.receipts, fileBinding h files b.path = .ok b) ∧
      ∀ o ∈ l.recoveryGoals, fileBinding h files o.receipt.path = .ok o.receipt := by
  unfold existing at he
  split at he
  · cases he
  · split at he
    · cases he
    · rename_i hdeadline
      obtain ⟨_, hreceipts, he⟩ := bind_ok he
      obtain ⟨_, hrecovery, he⟩ := bind_ok he
      cases he
      exact ⟨rfl, not_not.1 hdeadline, verify_ok hreceipts, fun o ho => verify_ok hrecovery _ (List.mem_map_of_mem ho)⟩

/-! ## Reports of threads -/

/-- What is written is what a key gets. -/
theorem putThread_ok {threads threads' : Table Str Usage} {name : Watch.Json}
    (hp : putThread h threads name usage = .ok threads') :
    ∃ key, threads' = threads.put key usage ∧ name.text.bind threads.find = threads.find key := by
  unfold putThread at hp
  split at hp
  · rename_i s
    cases hp
    exact ⟨s, rfl, rfl⟩
  · rename_i hother
    split at hp
    · rename_i hempty
      cases hp
      refine ⟨keyText h name, by rw [hempty]; rfl, ?_⟩
      have htext : name.text = none := by
        cases name with
        | str s => exact absurd rfl (hother s)
        | _ => rfl
      rw [htext, hempty]
      rfl
    · cases hp

/-- **A report of a thread** gives a ledger that is sound, and that extends the one there was. -/
theorem recordOn_extends {o : Option Ledger} (ho : ∀ l, o = some l → Sound l)
    (hr : recordOn h o deadline goal objective usage bound = .ok l') :
    (∀ l, o = some l → Extends l l') ∧ Sound l' := by
  unfold recordOn at hr
  split at hr
  · cases hr
  · obtain ⟨name, -, hr⟩ := bind_ok hr
    split at hr
    · cases hr
    · dsimp only at hr
      split at hr
      · cases hr
      · rename_i hless
        obtain ⟨text, -, hr⟩ := bind_ok hr
        obtain ⟨threads, hthreads, hr⟩ := bind_ok hr
        obtain ⟨key, rfl, hold⟩ := putThread_ok hthreads
        cases hr
        rw [hold] at hless
        have hsound : Sound (o.getD (fresh text deadline)) := by
          cases o with
          | some l => exact ho l rfl
          | none => exact ⟨List.nodup_nil, rfl, rfl, List.nodup_nil, List.nodup_nil, List.nodup_nil⟩
        have hsame : ((o.map Ledger.threads).getD [] : Table Str Usage) = (o.getD (fresh text deadline)).threads := by
          cases o with
          | some l => rfl
          | none => rfl
        rw [hsame] at hless ⊢
        refine ⟨?_, ?_⟩
        · rintro l rfl
          dsimp only [Option.getD_some] at hless hsound ⊢
          have htokens : ((l.threads.find key).map Usage.tokensUsed).getD 0 ≤ usage.tokensUsed := by
            cases hfind : l.threads.find key with
            | none => exact Nat.zero_le _
            | some u =>
              rw [hfind] at hless
              exact not_lt.1 fun hlt => hless (.inl hlt)
          have hseconds : ((l.threads.find key).map Usage.timeUsedSeconds).getD 0 ≤ usage.timeUsedSeconds := by
            cases hfind : l.threads.find key with
            | none => exact Nat.zero_le _
            | some u =>
              rw [hfind] at hless
              exact not_lt.1 fun hlt => hless (.inr hlt)
          exact
            { objective := rfl
              deadline := rfl
              threads := by
                intro thread u hu
                by_cases hkey : thread = key
                · subst hkey
                  rw [hu] at htokens hseconds
                  exact ⟨usage, Table.find_put_self, htokens, hseconds⟩
                · exact ⟨u, (Table.find_put_other hkey).trans hu, Nat.le_refl _, Nat.le_refl _⟩
              tokens := by
                rw [hsound.tokens]
                exact Table.total_le_put htokens
              seconds := by
                rw [hsound.seconds]
                exact Table.total_le_put hseconds
              receipts := prefix_appendNew
              absent := List.prefix_refl _
              recovery := List.prefix_refl _ }
        · exact
            { threads := Table.nodup_keys_put hsound.threads
              tokens := rfl
              seconds := rfl
              receipts := nodup_appendNew hsound.receipts
              absent := hsound.absent
              recovery := hsound.recovery }

/-- What `record` adds to. -/
theorem record_ok (hr : record h files busy ledger receipt deadline = .ok l') :
    ∃ goal objective usage bound, recordOn h ledger deadline goal objective usage bound = .ok l' := by
  obtain ⟨raw, -, hr⟩ := bind_ok hr
  obtain ⟨goal, -, hr⟩ := bind_ok hr
  split at hr
  · cases hr
  · obtain ⟨goal, -, hr⟩ := bind_ok hr
    split at hr
    · cases hr
    · obtain ⟨objective, -, hr⟩ := bind_ok hr
      obtain ⟨usage, -, hr⟩ := bind_ok hr
      obtain ⟨bound, -, hr⟩ := bind_ok hr
      obtain ⟨_, -, hr⟩ := bind_ok hr
      refine ⟨goal, objective, usage, bound, ?_⟩
      cases ledger with
      | none => exact hr
      | some l =>
        obtain ⟨l₁, hl, hr⟩ := bind_ok hr
        rw [(existing_ok hl).1]
        exact hr

/-! ## Reports of absence and recovery -/

/-- What `recordAbsence` adds. -/
theorem recordAbsence_ok (hr : recordAbsence h files busy ledger receipt deadline = .ok l') :
    ∃ l session bound, ledger = some l ∧
      l' = { l with
        absentGoals := appendNew l.absentGoals ⟨session, bound⟩
        receipts := appendNew l.receipts bound } := by
  obtain ⟨raw, -, hr⟩ := bind_ok hr
  obtain ⟨⟨session, observation⟩, -, hr⟩ := bind_ok hr
  dsimp only at hr
  split at hr
  · cases hr
  · obtain ⟨bound, -, hr⟩ := bind_ok hr
    obtain ⟨_, -, hr⟩ := bind_ok hr
    obtain ⟨l, hl, hr⟩ := bind_ok hr
    cases hr
    exact ⟨l, session, bound, (existing_ok hl).1, rfl⟩

/-- What `recordRecovery` adds, and what it has checked. -/
structure Recovers (h : Host) (files : Files) (receipt : Str) (l l' : Ledger) (session : Str) (goal : Watch.Json)
    (usage : Usage) (bound : Binding) : Prop where
  observed : ∃ observation, observedGoal h files receipt = .ok (session, goal, observation)
  reported : ∃ text, goalUsage text goal = .ok usage
  binding : fileBinding h files receipt = .ok bound
  verified : ∀ o ∈ l.recoveryGoals, fileBinding h files o.receipt.path = .ok o.receipt
  consistent : consistent h files session goal usage l.recoveryGoals = .ok ()
  added : l' = { l with recoveryGoals := appendNew l.recoveryGoals ⟨session, bound⟩ }

theorem recordRecovery_ok (hr : recordRecovery h files busy ledger receipt deadline = .ok l') :
    ∃ l session goal usage bound, ledger = some l ∧ Recovers h files receipt l l' session goal usage bound := by
  obtain ⟨⟨session, goal, observation⟩, hobserved, hr⟩ := bind_ok hr
  dsimp only at hr
  split at hr
  · cases hr
  · obtain ⟨usage, husage, hr⟩ := bind_ok hr
    obtain ⟨_, -, hr⟩ := bind_ok hr
    obtain ⟨l, hl, hr⟩ := bind_ok hr
    obtain ⟨bound, hbound, hr⟩ := bind_ok hr
    obtain ⟨_, hconsistent, hr⟩ := bind_ok hr
    cases hr
    obtain ⟨hsome, -, -, hverified⟩ := existing_ok hl
    exact ⟨l, session, goal, usage, bound, hsome, ⟨observation, hobserved⟩, ⟨_, husage⟩, hbound, hverified,
      hconsistent, rfl⟩

/-- **What a call writes** is sound and extends what there was. -/
theorem proposed_extends {c : Call} (ho : ∀ l, ledger = some l → Sound l) (hp : c.proposed h ledger = .ok l') :
    (∀ l, ledger = some l → Extends l l') ∧ Sound l' := by
  unfold Call.proposed at hp
  split at hp
  · obtain ⟨goal, objective, usage, bound, hr⟩ := record_ok hp
    exact recordOn_extends ho hr
  · obtain ⟨l, session, bound, rfl, rfl⟩ := recordAbsence_ok hp
    have hs := ho l rfl
    refine ⟨?_, ⟨hs.threads, hs.tokens, hs.seconds, nodup_appendNew hs.receipts, nodup_appendNew hs.absent, hs.recovery⟩⟩
    rintro l₁ ⟨⟩
    exact { Extends.refl l with receipts := prefix_appendNew, absent := prefix_appendNew }
  · obtain ⟨l, session, goal, usage, bound, rfl, hr⟩ := recordRecovery_ok hp
    obtain rfl := hr.added
    have hs := ho l rfl
    refine ⟨?_, ⟨hs.threads, hs.tokens, hs.seconds, hs.receipts, hs.absent, nodup_appendNew hs.recovery⟩⟩
    rintro l₁ ⟨⟩
    exact { Extends.refl l with recovery := prefix_appendNew }

/-! ## Runs -/

/-- A disk whose ledger is sound, and without a ledger where there is residue. -/
structure Kept (d : Disk) : Prop where
  sound : ∀ l, d.ledger = some l → Sound l
  absent : d.uncertain = true → d.ledger = none

/-- A disk that another became: a ledger grew, or it was moved to the residue. -/
structure Later (d d' : Disk) : Prop where
  residue : d.uncertain = true → d'.uncertain = true
  grows : ∀ l, d.ledger = some l → (∃ l', d'.ledger = some l' ∧ Extends l l') ∨ d'.uncertain = true

theorem Later.refl (d : Disk) : Later d d := ⟨id, fun l hl => .inl ⟨l, hl, Extends.refl l⟩⟩

theorem Later.trans {d d' d'' : Disk} (hx : Later d d') (hy : Later d' d'') : Later d d'' where
  residue := fun hu => hy.residue (hx.residue hu)
  grows := by
    intro l hl
    rcases hx.grows l hl with ⟨l', hl', hext⟩ | hu
    · rcases hy.grows l' hl' with ⟨l'', hl'', hext'⟩ | hu
      · exact .inl ⟨l'', hl'', hext.trans hext'⟩
      · exact .inr hu
    · exact .inr (hy.residue hu)

/-- **A call that is refused** leaves the disk as it is. -/
theorem refused_same {c : Call} {d : Disk} {e : Exc} (hr : (c.run h d).1 = .refused e) : (c.run h d).2 = d := by
  unfold Call.run at hr ⊢
  split at hr
  · rfl
  · unfold atomicJson at hr ⊢
    split
    · rfl
    · rename_i hopen
      rw [if_neg hopen] at hr
      cases hs : c.storage with
      | failed => rfl
      | published =>
        rw [hs] at hr
        cases hr
      | quarantined =>
        rw [hs] at hr
        cases hr
      | stuck =>
        rw [hs] at hr
        cases hr

/-- **A call** keeps a disk, and comes to a later one. -/
theorem run_later {c : Call} {d : Disk} (hd : Kept d) : Kept (c.run h d).2 ∧ Later d (c.run h d).2 := by
  unfold Call.run
  split
  · exact ⟨hd, Later.refl d⟩
  · rename_i l hl
    obtain ⟨hext, hsound⟩ := proposed_extends hd.sound hl
    unfold atomicJson
    split
    · exact ⟨hd, Later.refl d⟩
    · rename_i hopen
      have hwritten : Kept ⟨some l, false⟩ ∧ Later d ⟨some l, false⟩ := by
        refine ⟨⟨?_, fun hu => by cases hu⟩, fun hu => absurd hu hopen, fun l₀ hl₀ => .inl ⟨l, rfl, hext l₀ hl₀⟩⟩
        rintro l₁ ⟨⟩
        exact hsound
      cases c.storage with
      | published => exact hwritten
      | stuck => exact hwritten
      | failed => exact ⟨hd, Later.refl d⟩
      | quarantined =>
        have hkept : Kept ⟨none, true⟩ := ⟨fun l hl => (by cases hl), fun _ => rfl⟩
        exact ⟨hkept, fun _ => rfl, fun _ _ => .inr rfl⟩

section

variable {calls : ℕ → Call} {n m : ℕ}

theorem kept_diskAt (h : Host) (calls : ℕ → Call) (n : ℕ) : Kept (diskAt h calls n) := by
  induction n with
  | zero =>
    refine ⟨?_, fun _ => rfl⟩
    intro l hl
    cases hl
  | succ n ih => exact (run_later ih).1

theorem later_diskAt (h : Host) (calls : ℕ → Call) (hle : n ≤ m) : Later (diskAt h calls n) (diskAt h calls m) := by
  induction m, hle using Nat.le_induction with
  | base => exact Later.refl _
  | succ m hle ih => exact ih.trans (run_later (kept_diskAt h calls m)).2

/-- **A ledger grows** from call to call. -/
theorem extends_diskAt (hle : n ≤ m) (hn : (diskAt h calls n).ledger = some l)
    (hm : (diskAt h calls m).ledger = some l') : Extends l l' := by
  rcases (later_diskAt h calls hle).grows l hn with ⟨l₁, hl₁, hext⟩ | hu
  · rw [hm] at hl₁
    cases hl₁
    exact hext
  · -- where there is residue there is no ledger
    rw [(kept_diskAt h calls m).absent hu] at hm
    cases hm

theorem returned_next (hr : outcomeAt h calls n = .returned l) :
    (calls n).proposed h (diskAt h calls n).ledger = .ok l ∧ (diskAt h calls (n + 1)).ledger = some l := by
  unfold outcomeAt Call.run at hr
  have hnext : diskAt h calls (n + 1) = ((calls n).run h (diskAt h calls n)).2 := rfl
  rw [hnext]
  unfold Call.run
  cases hp : (calls n).proposed h (diskAt h calls n).ledger with
  | error e =>
    rw [hp] at hr
    cases hr
  | ok l₁ =>
    rw [hp] at hr
    dsimp only at hr ⊢
    unfold atomicJson at hr ⊢
    by_cases hopen : (diskAt h calls n).uncertain = true
    · rw [if_pos hopen] at hr
      cases hr
    · rw [if_neg hopen] at hr ⊢
      cases hs : (calls n).storage with
      | published =>
        rw [hs] at hr
        cases hr
        exact ⟨rfl, rfl⟩
      | failed =>
        rw [hs] at hr
        cases hr
      | quarantined =>
        rw [hs] at hr
        cases hr
      | stuck =>
        rw [hs] at hr
        cases hr

/-! ## Recovery reports -/

/-- No two contents that the calls find have one digest. -/
def Distinguishes (h : Host) (calls : ℕ → Call) : Prop :=
  ∀ i j p q a b, (calls i).files p = some a → (calls j).files q = some b → h.sha256 a = h.sha256 b → a = b

/-- A report that does not contradict an earlier one: the objective is the same, and the usage is not less. -/
def Follows (old new : Watch.Json) : Prop :=
  (∃ a b, old.find "objective" = some a ∧ new.find "objective" = some b ∧ differs a b = false) ∧
    ∀ text text' u v, goalUsage text old = .ok u → goalUsage text' new = .ok v → u ≤ v

theorem member_ok {v x : Watch.Json} {key : String} (hm : member v key = .ok x) : v.find key = some x := by
  unfold member at hm
  split at hm
  · rename_i hx
    cases hm
    exact hx
  · cases hm

theorem goalUsage_ok {text : String} (hu : goalUsage text goal = .ok usage) :
    ∃ tokens seconds, member goal "tokensUsed" = .ok tokens ∧ member goal "timeUsedSeconds" = .ok seconds ∧
      tokens.nonnegative = some usage.tokensUsed ∧ seconds.nonnegative = some usage.timeUsedSeconds := by
  obtain ⟨tokens, htokens, hu⟩ := bind_ok hu
  obtain ⟨seconds, hseconds, hu⟩ := bind_ok hu
  refine ⟨tokens, seconds, htokens, hseconds, ?_⟩
  split at hu
  · rename_i hn hm
    cases hu
    exact ⟨hn, hm⟩
  · cases hu

/-- A counter that is not above is not less. -/
theorem le_of_below {v : Watch.Json} {a b : ℕ} (hv : v.nonnegative = some a) (hb : below b v = .ok false) : a ≤ b := by
  cases v with
  | int i =>
    have hnonneg : 0 ≤ i ∧ i.toNat = a := by simpa [Watch.Json.nonnegative] using hv
    have hnot : ¬ ((b : ℚ) < i) := by simpa [below, Watch.Json.number] using hb
    have hle : ¬ ((b : ℤ) < i) := by
      intro hlt
      exact hnot (by exact_mod_cast hlt)
    omega
  | _ => simp [Watch.Json.nonnegative] at hv

/-- What was compared. -/
theorem consistent_ok {records : List Observed} {previous : Observed}
    (hc : consistent h files session goal usage records = .ok ()) (hp : previous ∈ records)
    (hs : previous.sessionId = session) :
    ∃ whose old observation, observedGoal h files previous.receipt.path = .ok (whose, old, observation) ∧
      (∃ a b, old.find "objective" = some a ∧ goal.find "objective" = some b ∧ differs a b = false) ∧
      ∀ text u, goalUsage text old = .ok u → u ≤ usage := by
  induction records with
  | nil => cases hp
  | cons first records ih =>
    unfold consistent at hc
    by_cases hother : first.sessionId = session
    · rw [if_neg (not_not.2 hother)] at hc
      obtain ⟨raw, hraw, hc⟩ := bind_ok hc
      obtain ⟨⟨whose, observation⟩, hobserved, hc⟩ := bind_ok hc
      obtain ⟨old, hold, hc⟩ := bind_ok hc
      obtain ⟨a, ha, hc⟩ := bind_ok hc
      obtain ⟨b, hb, hc⟩ := bind_ok hc
      by_cases hdiffers : differs a b = true
      · rw [if_pos hdiffers] at hc
        cases hc
      · rw [if_neg hdiffers] at hc
        obtain ⟨tokens, htokens, hc⟩ := bind_ok hc
        obtain ⟨seconds, hseconds, hc⟩ := bind_ok hc
        obtain ⟨less, hless, hc⟩ := bind_ok hc
        obtain ⟨less', hless', hc⟩ := bind_ok hc
        by_cases hregressed : (less || less') = true
        · rw [if_pos hregressed] at hc
          cases hc
        · rw [if_neg hregressed] at hc
          rcases List.mem_cons.1 hp with rfl | hmem
          · rw [Bool.or_eq_true, not_or, Bool.not_eq_true, Bool.not_eq_true] at hregressed
            obtain ⟨rfl, rfl⟩ := hregressed
            refine ⟨whose, old, observation, ?_, ⟨a, b, member_ok ha, member_ok hb, by simpa using hdiffers⟩, ?_⟩
            · unfold observedGoal
              rw [hraw]
              change (goalObservation raw >>= _) = _
              rw [hobserved]
              change (member observation "goal" >>= _) = _
              rw [hold]
              rfl
            · intro text u hu
              obtain ⟨t, s, ht, hs, htn, hsn⟩ := goalUsage_ok hu
              rw [htokens] at ht
              rw [hseconds] at hs
              cases ht
              cases hs
              exact ⟨le_of_below htn hless, le_of_below hsn hless'⟩
          · exact ih hc hmem
    · rw [if_pos hother] at hc
      rcases List.mem_cons.1 hp with rfl | hmem
      · exact absurd hs hother
      · exact ih hc hmem

theorem observedGoal_congr {files files' : Files} {p : Str} (hf : files p = files' p) :
    observedGoal h files p = observedGoal h files' p := by
  unfold observedGoal readJson
  rw [hf]

/-- A call is a recovery report that returned. -/
def Reports (h : Host) (calls : ℕ → Call) (n : ℕ) (session : Str) (goal : Watch.Json) : Prop :=
  (calls n).method = .recordRecovery ∧ (∃ l, outcomeAt h calls n = .returned l) ∧
    ∃ observation, observedGoal h (calls n).files (calls n).receipt = .ok (session, goal, observation)

theorem Reports.recovers (hr : Reports h calls n session goal) :
    ∃ l l' usage bound, (diskAt h calls n).ledger = some l ∧ (diskAt h calls (n + 1)).ledger = some l' ∧
      Recovers h (calls n).files (calls n).receipt l l' session goal usage bound := by
  obtain ⟨hmethod, ⟨l', hl'⟩, observation, hobserved⟩ := hr
  obtain ⟨hproposed, hnext⟩ := returned_next hl'
  unfold Call.proposed at hproposed
  rw [hmethod] at hproposed
  obtain ⟨l, session', goal', usage, bound, hl, hrec⟩ := recordRecovery_ok hproposed
  obtain ⟨observation', hobserved'⟩ := hrec.observed
  rw [hobserved] at hobserved'
  cases hobserved'
  exact ⟨l, l', usage, bound, hl, hnext, hrec⟩

/-- **A recovery report follows every earlier one** of its session. -/
theorem follows_of_lt (hd : Distinguishes h calls) {old new : Watch.Json} (hlt : n < m)
    (hn : Reports h calls n session old) (hm : Reports h calls m session new) : Follows old new := by
  obtain ⟨l₀, l₁, usage₀, bound₀, -, hl₁, hrec₀⟩ := hn.recovers
  obtain ⟨l, l', usage, bound, hl, -, hrec⟩ := hm.recovers
  have hmem : (⟨session, bound₀⟩ : Observed) ∈ l.recoveryGoals := by
    have hext : Extends l₁ l := extends_diskAt hlt hl₁ hl
    apply hext.recovery.subset
    rw [hrec₀.added]
    exact mem_appendNew
  -- the file that was bound is as it was
  obtain ⟨bytes, hbytes, rfl⟩ := fileBinding_ok hrec₀.binding
  obtain ⟨bytes', hbytes', hsame⟩ := fileBinding_ok (hrec.verified _ hmem)
  dsimp only at hbytes' hsame
  rw [Binding.mk.injEq] at hsame
  have hcontent : bytes = bytes' := hd n m _ _ _ _ hbytes hbytes' hsame.2.2
  obtain ⟨whose, goal, observation, hobserved, hobjective, husage⟩ := consistent_ok hrec.consistent hmem rfl
  dsimp only at hobserved
  have hfiles : (calls m).files (calls n).receipt = (calls n).files (calls n).receipt := by
    rw [hbytes, hbytes', hcontent]
  rw [observedGoal_congr hfiles] at hobserved
  obtain ⟨-, -, observation', hold⟩ := hn
  rw [hold] at hobserved
  cases hobserved
  refine ⟨hobjective, ?_⟩
  intro text text' u v hu hv
  obtain ⟨text₁, hreported⟩ := hrec.reported
  obtain ⟨t, s, ht, hs, htn, hsn⟩ := goalUsage_ok hreported
  obtain ⟨t', s', ht', hs', htn', hsn'⟩ := goalUsage_ok hv
  rw [ht] at ht'
  rw [hs] at hs'
  cases ht'
  cases hs'
  rw [htn] at htn'
  rw [hsn] at hsn'
  have hle := husage text u hu
  rw [Option.some.injEq] at htn' hsn'
  exact ⟨htn' ▸ hle.1, hsn' ▸ hle.2⟩

/-- **What the goal ledger keeps**, over every sequence of calls. -/
theorem ledger_kept (hd : Distinguishes h calls) :
    (∀ n e, outcomeAt h calls n = .refused e → diskAt h calls (n + 1) = diskAt h calls n) ∧
    (∀ n m l l', n ≤ m → (diskAt h calls n).ledger = some l → (diskAt h calls m).ledger = some l' → Extends l l') ∧
    (∀ n l, (diskAt h calls n).ledger = some l → Sound l) ∧
    ∀ n m session old new, n < m → Reports h calls n session old → Reports h calls m session new → Follows old new :=
  ⟨fun _ _ hr => refused_same hr, fun _ _ _ _ hle hn hm => extends_diskAt hle hn hm,
    fun n => (kept_diskAt h calls n).sound, fun _ _ _ _ _ hlt hn hm => follows_of_lt hd hlt hn hm⟩

end

/-! ## A run -/

namespace Example

/-- What the files say, by their first byte: a report of a thread, and two of a recovery. -/
def loads : List UInt8 → Option Watch.Json
  | [1] => some (.dict [(str "goal", .dict [(str "threadId", .str (str "t")), (str "objective", .str (str "o")),
      (str "tokensUsed", .int 10), (str "timeUsedSeconds", .int 1)])])
  | [k] => some (.dict [(str "goal", .dict [(str "threadId", .str (str "s")), (str "objective", .str (str "r")),
      (str "tokensUsed", .int k.toNat), (str "timeUsedSeconds", .int 0)])])
  | _ => none

/-- A digest that is the content. -/
def host : Host := ⟨loads, fun bytes => bytes.map UInt8.toNat, fun _ => [], fun _ => []⟩

def stored : Files
  | [k] => if k ≤ 3 then some [UInt8.ofNat k] else none
  | _ => none

/-- A report of a thread, one of a recovery, and others of the same recovery. -/
def calls (n : ℕ) : Call :=
  if n = 0 then ⟨.record, [1], str "d", stored, false, .published⟩
  else if n = 1 then ⟨.recordRecovery, [2], str "d", stored, false, .published⟩
  else ⟨.recordRecovery, [3], str "d", stored, false, .published⟩

def reported (tokens : ℤ) : Watch.Json :=
  .dict [(str "threadId", .str (str "s")), (str "objective", .str (str "r")), (str "tokensUsed", .int tokens),
    (str "timeUsedSeconds", .int 0)]

/-- The ledger after the thread and some recovery reports. -/
def ledgerOf (recoveryGoals : List Observed) : Ledger :=
  ⟨str "o", str "d", [(str "t", ⟨10, 1⟩)], [⟨[1], 1, [1]⟩], 10, 1, [], [], recoveryGoals⟩

theorem distinguishes : Distinguishes host calls := by
  intro i j p q a b _ _ hab
  exact List.map_injective_iff.2 (fun x y hxy => UInt8.toNat_inj.1 hxy) hab

end Example

/-- A recovery reports twice, the second time more. -/
theorem ledger_kept_run :
    Reports Example.host Example.calls 1 (str "s") (Example.reported 2) ∧
    Reports Example.host Example.calls 2 (str "s") (Example.reported 3) ∧
    Follows (Example.reported 2) (Example.reported 3) := by
  have hfirst : outcomeAt Example.host Example.calls 1 =
      .returned (Example.ledgerOf [⟨str "s", ⟨[2], 1, [2]⟩⟩]) := by
    decide +kernel
  have hsecond : outcomeAt Example.host Example.calls 2 =
      .returned (Example.ledgerOf [⟨str "s", ⟨[2], 1, [2]⟩⟩, ⟨str "s", ⟨[3], 1, [3]⟩⟩]) := by
    decide +kernel
  have hfirst : Reports Example.host Example.calls 1 (str "s") (Example.reported 2) :=
    ⟨rfl, ⟨_, hfirst⟩, _, rfl⟩
  have hsecond : Reports Example.host Example.calls 2 (str "s") (Example.reported 3) :=
    ⟨rfl, ⟨_, hsecond⟩, _, rfl⟩
  obtain ⟨-, -, -, hfollows⟩ := ledger_kept Example.distinguishes
  exact ⟨hfirst, hsecond, hfollows 1 2 _ _ _ (by decide) hfirst hsecond⟩

end GoalLineage

end Arhugula
