import Arhugula.Proof.TtsMethods

/-!
# What a speech output releases

`calls_mixes` and `calls_players`: what was let go of and what is due is what was obtained.
`output_safe`: in every run that no `BaseException` disturbs, all that a call obtained is let go of, once,
before the call is dropped; a proof of its cleanup means what it says, and a fault stays.
-/

namespace Arhugula

namespace Tts

open Reentrant Session

variable {digest : Providers.Manifest → String} {b : Binding} {w : TWorld digest}
  {log : List (TEntry digest)} {e m : TEntry digest} {op : Op} {sid : String} {cfg : TConfig digest}

/-! ## Counts -/

/-- How often a callback was called. -/
def calls (op : Op) : List (TEntry digest) → ℕ
  | [] => 0
  | e :: log =>
    match e.act with
    | .call op' => if op' = op then calls op log + 1 else calls op log
    | _ => calls op log

/-- How often a factory gave the handle `n`. -/
def obtained (factory : Op) (n : ℕ) : List (TEntry digest) → ℕ
  | [] => 0
  | e :: log =>
    match e.act with
    | .reply op (.handle k _) => if op = factory ∧ k = n then obtained factory n log + 1 else obtained factory n log
    | _ => obtained factory n log

/-- What the two resources of a call have in common. -/
def Resource.held : Resource → Due → List ℕ
  | .mix, u => u.leases
  | .player, u => u.players

/-- The callback that lets go of one. -/
def Resource.letGo : Resource → ℕ → Op
  | .mix, n => .restore n
  | .player, n => .cancel n

theorem held_call_other (x : Resource) (u : Due) (h : ∀ n, op ≠ x.letGo n) : x.held (u.call op) = x.held u := by
  cases x with
  | mix =>
    cases op with
    | restore n => exact absurd rfl (h n)
    | _ => rfl
  | player =>
    cases op with
    | cancel n => exact absurd rfl (h n)
    | _ => rfl

theorem held_call_letGo (x : Resource) (u : Due) (n : ℕ) : x.held (u.call (x.letGo n)) = (x.held u).erase n := by
  cases x <;> rfl

theorem obliged_letGo {x : Resource} {u : Due} {n : ℕ} (h : Obliged (x.letGo n) u) : n ∈ x.held u := by
  cases x <;> exact h

/-- An answer adds to what is held of a resource only where its factory gives a handle. -/
theorem held_reply (x : Resource) (u : Due) (op : Op) (a : Answer digest) :
    x.held (u.reply op a) = match a with
      | .handle n _ => if op = x.factory then n :: x.held u else x.held u
      | _ => x.held u := by
  cases a with
  | handle n complete =>
    cases x with
    | mix => cases op <;> first | rfl | (simp only [Due.reply, Due.drain]; split <;> rfl)
    | player => cases op <;> first | rfl | (simp only [Due.reply, Due.drain]; split <;> rfl)
  | _ => cases x <;> cases op <;> first | rfl | (simp only [Due.reply, Due.drain]; split <;> rfl)

/-- **What was let go of and what is due is what was obtained.** -/
theorem calls_obtained (h : Throughout Owes log) (hd : ¬ Disturbed log) (x : Resource) (n : ℕ) :
    calls (x.letGo n) log + (x.held (due log)).count n = obtained x.factory n log := by
  induction log with
  | nil => cases x <;> rfl
  | cons e log ih =>
    have hd' : ¬ Disturbed log := fun hn => hd (disturbed_cons hn)
    have hih := ih h.2 hd'
    cases hact : e.act with
    | invoke m => simpa only [calls, obtained, due, hact] using hih
    | ret r => simpa only [calls, obtained, due, hact] using hih
    | crash => simpa only [calls, obtained, due, hact] using hih
    | call op =>
      simp only [calls, obtained, due, hact]
      by_cases hop : ∃ k, op = x.letGo k
      · obtain ⟨k, rfl⟩ := hop
        have hmem : k ∈ x.held (due log) := obliged_letGo (h.1.obliged _ hact hd')
        rw [held_call_letGo]
        by_cases hk : k = n
        · subst hk
          have hpos : 0 < (x.held (due log)).count k := List.count_pos_iff.2 hmem
          rw [if_pos rfl, List.count_erase_self]
          omega
        · have hne : x.letGo k ≠ x.letGo n := by
            intro hs
            cases x <;> (cases hs; exact hk rfl)
          rw [if_neg hne, List.count_erase_of_ne (Ne.symm hk)]
          exact hih
      · have hne : op ≠ x.letGo n := fun hs => hop ⟨n, hs⟩
        rw [if_neg hne, held_call_other x _ fun k hs => hop ⟨k, hs⟩]
        exact hih
    | reply op a =>
      simp only [calls, due, hact, held_reply]
      cases a with
      | handle k complete =>
        simp only [obtained, hact]
        by_cases hop : op = x.factory
        · rw [if_pos hop]
          by_cases hk : k = n
          · subst hk
            rw [if_pos ⟨hop, rfl⟩, List.count_cons_self]
            omega
          · rw [if_neg fun hs => hk hs.2, List.count_cons_of_ne hk]
            exact hih
        · rw [if_neg hop, if_neg fun hs => hop hs.1]
          exact hih
      | _ => simpa only [obtained, hact] using hih

/-! ## Proofs -/

/-- An answer that proves what it is to prove. -/
def Proves (op : Op) (a : Answer digest) : Prop :=
  match op with
  | .restore _ | .cancel _ | .gatewayProven => a.isTrue = true
  | .mixes | .players => ∃ n, a = .handle n true
  | .gatewayCancel => a.raises = false
  | _ => True

/-- **What is clean was proven**, whenever it was asked. -/
theorem clean_proves (h : (due log).clean = true) : ∀ e ∈ log, ∀ op a, e.act = .reply op a → Proves op a := by
  induction log with
  | nil =>
    intro e he
    cases he
  | cons k log ih =>
    -- an entry makes nothing clean that was not
    have hkey : (due log).clean = true ∧ ∀ op a, k.act = .reply op a → Proves op a := by
      cases hact : k.act with
      | reply op a =>
        simp only [due, hact] at h
        cases op with
        | restore n =>
          simp only [Due.reply, Due.prove, Bool.and_eq_true] at h
          exact ⟨h.1, fun op' a' hs => by cases hs; exact h.2⟩
        | cancel n =>
          simp only [Due.reply, Due.prove, Bool.and_eq_true] at h
          exact ⟨h.1, fun op' a' hs => by cases hs; exact h.2⟩
        | gatewayProven =>
          simp only [Due.reply, Due.prove, Bool.and_eq_true] at h
          exact ⟨h.1, fun op' a' hs => by cases hs; exact h.2⟩
        | mixes =>
          cases a with
          | handle n complete =>
            simp only [Due.reply, Bool.and_eq_true] at h
            exact ⟨h.1, fun op' a' hs => by cases hs; exact ⟨n, by rw [h.2]⟩⟩
          | _ => cases h
        | players =>
          cases a with
          | handle n complete =>
            simp only [Due.reply, Bool.and_eq_true] at h
            exact ⟨h.1, fun op' a' hs => by cases hs; exact ⟨n, by rw [h.2]⟩⟩
          | _ => cases h
        | gatewayCancel =>
          simp only [Due.reply] at h
          split at h
          · simp [Due.drain] at h
          · rename_i hr
            exact ⟨h, fun op' a' hs => by cases hs; exact Bool.eq_false_of_not_eq_true hr⟩
        | gatewayPoll =>
          refine ⟨?_, fun op' a' hs => by cases hs; trivial⟩
          simp only [Due.reply] at h
          split at h
          · simp only [Due.drain, Bool.and_eq_true] at h
            exact h.1
          · split at h
            · simp only [Due.drain, Bool.and_eq_true] at h
              exact h.1
            · exact h
        | gatewayStart request =>
          refine ⟨?_, fun op' a' hs => by cases hs; trivial⟩
          simp only [Due.reply] at h
          split at h <;> exact h
        | _ => exact ⟨h, fun op' a' hs => by cases hs; trivial⟩
      | call op =>
        simp only [due, hact] at h
        refine ⟨?_, fun op' a' hs => by cases hs⟩
        cases op <;> exact h
      | invoke m =>
        simp only [due, hact] at h
        exact ⟨h, fun op' a' hs => by cases hs⟩
      | ret r =>
        simp only [due, hact] at h
        exact ⟨h, fun op' a' hs => by cases hs⟩
      | crash =>
        simp only [due, hact] at h
        exact ⟨h, fun op' a' hs => by cases hs⟩
    intro e he
    rcases List.mem_cons.1 he with rfl | he
    · exact hkey.2
    · exact ih hkey.1 e he

/-! ## Runs -/

theorem TInv.new (sid : String) : TInv (Machine.start (TtsOutput.new sid) : TConfig digest).w := by
  refine ⟨⟨trivial, rfl, fun c hc => (by cases hc)⟩, ⟨rfl, rfl⟩, fun _ => .inr ⟨rfl, rfl, rfl, rfl, .inl rfl⟩, fun _ => ?_⟩
  exact .inr fun hp => by cases hp

theorem output_reachable (h : (output digest b).Reachable (.new sid) cfg) : TInv cfg.w :=
  Contract.sound (output_kept digest b) (TInv.new sid) h

/-- **All that was obtained was let go of**, once; no call of the gateway is accepted and not ended. -/
structure Cleared (log : List (TEntry digest)) : Prop where
  mixes : ∀ n, calls (.restore n) log = obtained .mixes n log
  players : ∀ n, calls (.cancel n) log = obtained .players n log
  gateway : (due log).accepted = false

theorem Due.Free.cleared (hf : (due log).Free) (h : Throughout Owes log) (hd : ¬ Disturbed log) : Cleared log := by
  refine ⟨fun n => ?_, fun n => ?_, hf.2.2⟩
  · have hcount := calls_obtained h hd .mix n
    rw [show Resource.mix.held (due log) = [] from hf.1, List.count_nil] at hcount
    exact hcount
  · have hcount := calls_obtained h hd .player n
    rw [show Resource.player.held (due log) = [] from hf.2.1, List.count_nil] at hcount
    exact hcount

/-- A fault stays, from any entry on. -/
theorem fault_stays (h : Throughout Owes (e :: log)) : ∀ m ∈ e :: log, m.st.fault = true → e.st.fault = true := by
  induction log generalizing e with
  | nil =>
    intro m hm hf
    rw [List.mem_singleton.1 hm] at hf
    exact hf
  | cons k log ih =>
    intro m hm hf
    rcases List.mem_cons.1 hm with rfl | hm
    · exact hf
    · have hlinked : Follows (k :: log) k e.st := h.1.linked
      exact hlinked.fault (ih h.2 m hm hf)

/-- **The output releases what it obtains**, in every run. The first six parts are about what no
`BaseException` has disturbed: nothing is let go of that is not due, all is let go of before the call is
dropped, and what is called clean was proven. A fault stays; of the owner, only the generation that is
borrowed is faulted; and a success is published only of a call that is neither canceled nor stale. -/
theorem output_safe (h : (output digest b).Reachable (.new sid) cfg) :
    (¬ Disturbed cfg.w.log → ∀ n, calls (.restore n) cfg.w.log ≤ obtained .mixes n cfg.w.log ∧
      calls (.cancel n) cfg.w.log ≤ obtained .players n cfg.w.log) ∧
    (∀ newer e older, cfg.w.log = newer ++ e :: older → e.act = .call .gatewayCancel → ¬ Disturbed older →
      (due older).accepted = true ∧ (due older).canceled = false) ∧
    (∀ newer e m older, cfg.w.log = newer ++ e :: m :: older → m.st.call ≠ none → e.st.call = none →
      ¬ Disturbed (m :: older) → Cleared (m :: older)) ∧
    (¬ Disturbed cfg.w.log → cfg.w.st.busy = false → cfg.w.st.call = none → Cleared cfg.w.log) ∧
    (¬ Disturbed cfg.w.log → cfg.w.st.cleanupProven = true →
      ∀ e ∈ cfg.w.log, ∀ op a, e.act = .reply op a → Proves op a) ∧
    (¬ Disturbed cfg.w.log → cfg.w.st.busy = false → cfg.w.st.call = none →
      (∃ e ∈ cfg.w.log, ∃ op a, e.act = .reply op a ∧ ¬ Proves op a) → cfg.w.st.fault = true) ∧
    (∀ e ∈ cfg.w.log, e.st.fault = true → cfg.w.st.fault = true) ∧
    (∀ newer e m older, cfg.w.log = newer ++ e :: m :: older → OwnerStep m e.st.owner) ∧
    (∀ newer e m older, cfg.w.log = newer ++ e :: m :: older → ∀ c, e.st.terminal = some c →
      m.st.terminal = some c ∨ (c.code.success → Proper (m :: older) m e.st.owner)) ∧
    (∀ e older, cfg.w.log = e :: older → cfg.w.st = e.st) := by
  have hinv := output_reachable h
  have hlast : ∀ e older, cfg.w.log = e :: older → cfg.w.st = e.st := by
    intro e older hlog
    have hlevel := hinv.level
    rw [hlog] at hlevel
    exact hlevel.symm
  have hfollows : ∀ newer e m older, cfg.w.log = newer ++ e :: m :: older → Follows (m :: older) m e.st := by
    intro newer e m older hlog
    have howes := hinv.owes
    rw [hlog] at howes
    exact howes.at.linked
  have hclean : ¬ Disturbed cfg.w.log → cfg.w.st.busy = false → cfg.w.st.call = none → cfg.w.st.fault = false →
      (due cfg.w.log).clean = true := by
    intro hd hb hc hf
    have hsound := (hinv.sound hb).resolve_left hd
    rcases hsound.clean with hclean | hfault | ⟨c, hcall, -⟩
    · exact hclean
    · rw [hf] at hfault
      cases hfault
    · rw [hc] at hcall
      cases hcall
  refine ⟨fun hd n => ⟨?_, ?_⟩, fun newer e older hlog hact hd => ?_, fun newer e m older hlog hm he hd => ?_,
    fun hd hb hc => ?_, fun hd hproven => ?_, fun hd hb hc => ?_, fun e he hf => ?_,
    fun newer e m older hlog => (hfollows newer e m older hlog).owner,
    fun newer e m older hlog => (hfollows newer e m older hlog).published, hlast⟩
  · have hcount := calls_obtained hinv.owes hd .mix n
    exact Nat.le.intro hcount
  · have hcount := calls_obtained hinv.owes hd .player n
    exact Nat.le.intro hcount
  · have howes := hinv.owes
    rw [hlog] at howes
    exact howes.at.obliged _ hact hd
  · have howes := hinv.owes
    rw [hlog] at howes
    have htail : Throughout Owes (m :: older) := by
      clear hlog
      induction newer with
      | nil => exact howes.2
      | cons k newer ih => exact ih howes.2
    exact (((hfollows newer e m older hlog).dropped hm he).resolve_left hd).cleared htail hd
  · have hsound := (hinv.sound hb).resolve_left hd
    rw [hc] at hsound
    exact Due.Free.cleared ⟨hsound.leases, hsound.players, hsound.accepted⟩ hinv.owes hd
  · unfold TtsOutput.cleanupProven at hproven
    simp only [Bool.and_eq_true, Bool.not_eq_true'] at hproven
    exact clean_proves (hclean hd hproven.1.2 (Option.isNone_iff_eq_none.1 hproven.1.1) hproven.2)
  · rintro ⟨e, he, op, a, hact, hnot⟩
    by_contra hf
    exact hnot (clean_proves (hclean hd hb hc (by simpa using hf)) e he op a hact)
  · cases hlog : cfg.w.log with
    | nil =>
      rw [hlog] at he
      cases he
    | cons k older =>
      have howes := hinv.owes
      rw [hlog] at howes he
      rw [hlast k older hlog]
      exact fault_stays howes e he hf

/-! ### Two runs -/

namespace Example

open Providers

/-- The only digest there is here. -/
def sha (_ : Manifest) : String := "e3"

def provider : Provider := ⟨"host-tts", .host, "t1", true, .healthy, ["tts"]⟩

def manifest : Manifest := ⟨unhealthy provider, "2c", ⟨1, 0, 1, 1, 1⟩, ⟨rfl, rfl⟩, ⟨by decide, by decide⟩⟩

def evidence : Evidence :=
  ⟨sha manifest, "fc", ⟨"t1", .synthetic, "b", true, true, true, [("c", .pass)], true, by decide⟩⟩

def candidate : Candidate sha where
  id := 0
  baseline := 0
  manifests := [manifest]
  host := ⟨provider, ⟨"https://h", "p"⟩, "tok", 0, rfl⟩
  localRoute := none
  policy := ⟨1000, false, false, [], ⟨1, 1, 1, 1, 1⟩, .zero⟩
  evidence := [evidence]
  bound := by decide +kernel

def token : Conversation.TurnToken := ⟨"s:1", 1, 1, "profile", 1, 1, 1⟩

def conversation : Conversation.Snapshot :=
  ⟨⟨"profile", "policy", true, true⟩, 1,
    some ⟨"profile", "policy", 1, {.voice}, "good bye", "F12", ⟨3, 100, 1000, 5, 3⟩⟩, ⟨1, ∅, ∅⟩, ⟨1, .empty, [], none⟩⟩

def snapshot : AudioSnapshot :=
  ⟨conversation, some token,
    some ⟨"profile", "policy", 1, 1, [.spoken .response "v" .pause], [⟨"host-tts", "t1", "v"⟩], ⟨100, 1000, 3, 3⟩⟩, false⟩

/-- The request, and the only bytes that are its text. -/
def request : Json :=
  .obj [("version", .int 1), ("request_id", .str "tts-00"), ("service", .str "tts"), ("provider_id", .str "host-tts"),
    ("model_version", .str "t1"), ("catalog_version", .int 1), ("budget_ms", .int 1000),
    ("payload", .obj [("text", .str "hi"), ("voice", .str "v")])]

def codec : Gateway.Codec where
  loads raw := if raw = [1] then some request else none
  dumps j := if j = request then [1] else []
  b64decode _ := none
  b64encode _ := ""

def binding : Binding := ⟨codec, fun _ _ => "00", 1⟩

/-- What is done to an output. -/
abbrev Steps := List (Input (Answer sha) Method)

/-- The answers to one check. -/
def checked : List (Input (Answer sha) Method) := [.reply (.snapshot snapshot), .reply (.status (.active 1 candidate))]

/-- A call that is started. -/
def started : List (Input (Answer sha) Method) :=
  ([.invoke (.ownerBegin (some "conversation")), .invoke (.start (some ⟨token, .response, "hi"⟩))] : Steps) ++ checked ++
    checked ++ ([.reply .none] : Steps) ++ checked

/-- Its audio is received and played. -/
def playing : List (Input (Answer sha) Method) :=
  started ++ ([.invoke .poll] : Steps) ++ checked ++
    ([.reply (.result (.success ⟨.speech [0, 0], "host-tts", "t1"⟩)), .reply .true] : Steps) ++ checked ++
    ([.reply (.handle 5 true)] : Steps) ++ checked ++ ([.reply .none] : Steps) ++ checked ++
    ([.reply (.handle 6 true)] : Steps) ++ checked ++ ([.reply .none] : Steps) ++ checked

/-- The player is complete. -/
def played : List (Input (Answer sha) Method) :=
  playing ++ ([.invoke .poll] : Steps) ++ checked ++ ([.reply (.playback .complete)] : Steps) ++ checked ++
    ([.reply .true, .reply .true] : Steps) ++ checked ++ ([.reply .none, .reply .none] : Steps)

/-- A `KeyboardInterrupt` while the mix is restored, and then a `cancel`. -/
def interrupted : List (Input (Answer sha) Method) :=
  playing ++ ([.invoke .poll] : Steps) ++ checked ++ ([.reply (.playback .complete)] : Steps) ++ checked ++
    ([.reply .true, .reply (.raised true), .invoke .cancel, .reply .true, .reply .true] : Steps) ++ checked ++
    ([.reply .none, .reply .none] : Steps)

end Example

instance (a : Act Op (Answer digest) Exc Method Value) : Decidable (∃ op, a = .reply op (.raised true)) :=
  match a with
  | .reply op (.raised true) => isTrue ⟨op, rfl⟩
  | .reply _ (.raised false) | .reply _ (.gatewayError _) | .reply _ .none | .reply _ (.snapshot _)
  | .reply _ (.status _) | .reply _ (.result _) | .reply _ (.handle _ _) | .reply _ (.playback _) | .reply _ .true
  | .reply _ .object | .invoke _ | .call _ | .ret _ | .crash => isFalse fun ⟨_, h⟩ => by cases h

instance (log : List (TEntry digest)) : Decidable (Disturbed log) :=
  inferInstanceAs (Decidable (∃ e ∈ log, ∃ op, e.act = .reply op (.raised true)))

/-- A call that was played: its mix lease and its player are let go of, and its cleanup is proven. -/
theorem output_safe_played :
    ∃ cfg : TConfig Example.sha, (output Example.sha Example.binding).Reachable (.new "s") cfg ∧
      ¬ Disturbed cfg.w.log ∧ cfg.w.st.cleanupProven = true ∧ obtained .mixes 5 cfg.w.log = 1 ∧
        obtained .players 6 cfg.w.log = 1 ∧ Cleared cfg.w.log ∧ calls (.restore 5) cfg.w.log = 1 ∧
          ∀ e ∈ cfg.w.log, ∀ op a, e.act = .reply op a → Proves op a := by
  obtain ⟨cfg, hcfg, ht⟩ := Machine.Reachable.of_run (output Example.sha Example.binding) (.new "s") Example.played
    (fun c => decide (¬ Disturbed c.w.log ∧ c.w.st.cleanupProven = true ∧ obtained .mixes 5 c.w.log = 1 ∧
      obtained .players 6 c.w.log = 1 ∧ c.w.st.busy = false ∧ c.w.st.call = none)) (by decide +kernel)
  obtain ⟨hd, hproven, hmix, hplayer, hb, hc⟩ := of_decide_eq_true ht
  obtain ⟨-, -, -, hcleared, hproves, -⟩ := output_safe hcfg
  have hclear := hcleared hd hb hc
  exact ⟨cfg, hcfg, hd, hproven, hmix, hplayer, hclear, (hclear.mixes 5).trans hmix, hproves hd hproven⟩

/-- **A mix lease is restored twice**, where a `KeyboardInterrupt` was raised while it was restored; and a
gateway call that was accepted is not canceled, where its audio was received. -/
theorem restores_after_interrupt :
    (∃ cfg : TConfig Example.sha, (output Example.sha Example.binding).Reachable (.new "s") cfg ∧ cfg.stack = [] ∧
      cfg.w.st.cleanupProven = true ∧ obtained .mixes 5 cfg.w.log = 1 ∧ calls (.restore 5) cfg.w.log = 2) ∧
    ∃ cfg : TConfig Example.sha, (output Example.sha Example.binding).Reachable (.new "s") cfg ∧ cfg.stack = [] ∧
      cfg.w.st.call = none ∧ ¬ Disturbed cfg.w.log ∧ (∃ e ∈ cfg.w.log, e.st.call.any Call.gatewayOwned = true) ∧
        calls .gatewayCancel cfg.w.log = 0 := by
  constructor
  · obtain ⟨cfg, hcfg, ht⟩ := Machine.Reachable.of_run (output Example.sha Example.binding) (.new "s")
      Example.interrupted (fun c => decide (c.stack.length = 0 ∧ c.w.st.cleanupProven = true ∧
        obtained .mixes 5 c.w.log = 1 ∧ calls (.restore 5) c.w.log = 2)) (by decide +kernel)
    obtain ⟨hstack, hproven, hmix, hrestore⟩ := of_decide_eq_true ht
    exact ⟨cfg, hcfg, List.length_eq_zero_iff.1 hstack, hproven, hmix, hrestore⟩
  · obtain ⟨cfg, hcfg, ht⟩ := Machine.Reachable.of_run (output Example.sha Example.binding) (.new "s")
      Example.played (fun c => decide (c.stack.length = 0 ∧ c.w.st.call = none ∧ ¬ Disturbed c.w.log ∧
        (∃ e ∈ c.w.log, e.st.call.any Call.gatewayOwned = true) ∧ calls .gatewayCancel c.w.log = 0)) (by decide +kernel)
    obtain ⟨hstack, hcall, hd, howned, hcancel⟩ := of_decide_eq_true ht
    exact ⟨cfg, hcfg, List.length_eq_zero_iff.1 hstack, hcall, hd, howned, hcancel⟩

end Tts

end Arhugula
