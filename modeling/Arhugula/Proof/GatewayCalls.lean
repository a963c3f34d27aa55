import Arhugula.Proof.GatewayLife

/-!
# Callbacks of the gateway

While a callback of the client is pending, the methods that it calls are refused, or close
admission, or ask for the active call to be canceled: no more (`Passing`). So after a
callback the client is as it was, but for two flags (`Invoked`), and whatever holds of the
world before it is known to hold after it, if it does not look at these.
-/

namespace Arhugula

namespace Gateway

open Reentrant Providers

variable {digest : Manifest → String} {codec : Codec} {s₀ : Sys digest} {ctx : List (ℕ × Op)}
  {i : ℕ} {w w' : GWorld digest}

/-! ## Flags -/

theorem Client.flag_none (c : Client) : c.flag false false = c := by
  obtain ⟨_, _, _, _, active, _, _, _, _, _, _, _, _⟩ := c
  cases active <;> simp [Client.flag, Client.change]

theorem Client.flag_flag (c : Client) (d x d' x' : Bool) :
    (c.flag d x).flag d' x' = c.flag (d || d') (x || x') := by
  simp [Client.flag, Client.change, Option.map_map, Function.comp_def, Bool.or_assoc]

theorem Client.flag_idle {c : Client} (h : c.active = none) (x : Bool) : c.flag false x = c := by
  obtain ⟨_, _, _, _, active, _, _, _, _, _, _, _, _⟩ := c
  cases h
  simp [Client.flag, Client.change]

/-- The active call, flagged. -/
theorem Client.flag_active {c : Client} {d x : Bool} {k : Call} (h : c.active = some k) :
    (c.flag d x).active = some { k with cancelRequested := k.cancelRequested || x } := by
  simp [Client.flag, Client.change, h]

/-- The active call is to be canceled. -/
def Doomed (s : Sys digest) : Prop := ∀ c, s.client.active = some c → c.cancelRequested = true

/-- A call of a method, or a return. -/
def Passive : Act Op Answer Exc Method Return → Bool
  | .invoke _ | .ret _ => true
  | _ => false

/-- **What nested calls may do.** -/
structure Passing (a b : GWorld digest) : Prop where
  flags : ∃ d x, b.st = a.st.onClient (.flag d x)
  log : ∃ new, b.log = new ++ a.log ∧ (∀ e ∈ new, Passive e.act = true) ∧
    ((∃ e ∈ new, Requests e) → Doomed b.st)

theorem onClient_flag_none (s : Sys digest) : s.onClient (.flag false false) = s := by
  unfold Sys.onClient
  rw [Client.flag_none]

theorem onClient_flag_flag (s : Sys digest) (d x d' x' : Bool) :
    (s.onClient (.flag d x)).onClient (.flag d' x') = s.onClient (.flag (d || d') (x || x')) := by
  unfold Sys.onClient
  rw [Client.flag_flag]

theorem Doomed.flag {s : Sys digest} (h : Doomed s) (d x : Bool) : Doomed (s.onClient (.flag d x)) := by
  intro c hc
  obtain ⟨c', hc', rfl⟩ := Option.map_eq_some_iff.1 hc
  rw [h c' hc', Bool.true_or]

theorem Passing.refl (w : GWorld digest) : Passing w w :=
  ⟨⟨false, false, (onClient_flag_none w.st).symm⟩, [], rfl, by simp, by simp⟩

theorem Passing.trans {a b c : GWorld digest} (h : Passing a b) (h' : Passing b c) : Passing a c := by
  obtain ⟨⟨d, x, hs⟩, new, hl, hp, hr⟩ := h
  obtain ⟨⟨d', x', hs'⟩, new', hl', hp', hr'⟩ := h'
  refine ⟨⟨d || d', x || x', by rw [hs', hs, onClient_flag_flag]⟩, new' ++ new,
    by rw [hl', hl, List.append_assoc], fun e he => ?_, ?_⟩
  · rcases List.mem_append.1 he with he | he
    · exact hp' e he
    · exact hp e he
  · rintro ⟨e, he, hreq⟩
    rcases List.mem_append.1 he with he | he
    · exact hr' ⟨e, he, hreq⟩
    · rw [hs']
      exact (hr ⟨e, he, hreq⟩).flag d' x'

/-! ## The contract -/

/-- Outside of callbacks, a fault has ended the active call, unless a callback raised what no
handler catches. -/
def Settled (w : GWorld digest) : Prop :=
  w.st.client.insideCallback = false → ¬ Disturbed w.log → w.st.client.active.isSome →
    w.st.client.fault = none

/-- **The contract of the gateway**: its world is on a path of steps. -/
def gatewayContract (codec : Codec) (s₀ : Sys digest) : Contract (gateway codec digest) where
  Inv w := Path codec s₀ w ∧ Settled w
  Rel _ a b := a.st.client.insideCallback = true → Passing a b
  refl _ w _ := Passing.refl w
  trans h h' hin := by
    have hp := h hin
    refine hp.trans (h' ?_)
    obtain ⟨⟨d, x, hs⟩, -⟩ := hp
    rw [hs]
    exact hin

/-- Activation `i` is the call `m`, made in state `s`. -/
def Only (i : ℕ) (m : Method) (s : Sys digest) (log : List (GEntry digest)) : Prop :=
  ∀ e ∈ log, e.frame = i → ∀ m', e.act = .invoke m' → m' = m ∧ e.st = s

theorem only_enter (hlog : ∀ e ∈ w.log, e.frame < w.next) (m : Method) :
    Only w.next m w.st (w.enter m).log := by
  intro e he hi m' hm'
  rcases List.mem_cons.1 he with rfl | he
  · cases hm'
    exact ⟨rfl, rfl⟩
  · exact absurd (hlog e he) (by rw [hi]; exact lt_irrefl _)

theorem polls_enter (hlog : ∀ e ∈ w.log, e.frame < w.next) : Polls w.next (w.enter .poll).log :=
  fun e he hi m hm => (only_enter hlog .poll e he hi m hm).1

/-! ## Nested calls -/

/-- The methods that may ask for the active call to end. -/
def Method.asks : Method → Bool
  | .cancel | .disable _ => true
  | _ => false

theorem not_requests {m : Method} {s : Sys digest} (hm : m.asks = false) :
    ¬ Requests ⟨i, .invoke m, s⟩ := by
  rintro (h | ⟨mine, h, -⟩) <;> cases h <;> cases hm

/-- A call that is refused leaves the state as it was. -/
theorem ends_refused {m : Method} {s : Sys digest} (e : Exc) (hm : m.operates = false) (hp : m ≠ .poll) :
    Ends m s s (.error e) := by
  cases m with
  | start request => exact fun _ _ => ⟨rfl, rfl, rfl⟩
  | poll => exact absurd rfl hp
  | disableConfiguration => exact .inr ⟨⟨e, rfl⟩, rfl⟩
  | _ => exact hm

/-- A nested call adds its call and its return to the log, and asks for no more than it says. -/
theorem passing_nested {m : Method} {r : Except Exc Return} (d x : Bool)
    (hreq : Requests ⟨w.next, .invoke m, w.st⟩ → x = true) :
    Passing w (((w.enter m).put (w.st.onClient (.flag d x))).push w.next (.ret r)) := by
  refine ⟨⟨d, x, rfl⟩, [_, _], rfl, fun e he => ?_, ?_⟩
  · simp only [List.mem_cons, List.not_mem_nil, or_false] at he
    rcases he with rfl | rfl <;> rfl
  · rintro ⟨e, he, he'⟩ c hc
    simp only [List.mem_cons, List.not_mem_nil, or_false] at he
    rcases he with rfl | rfl
    · rcases he' with h | ⟨_, h, -⟩ <;> cases h
    · obtain ⟨c', -, rfl⟩ := Option.map_eq_some_iff.1 hc
      rw [hreq he', Bool.or_true]

/-- A nested call that left flags, and returns. -/
theorem nested_flag {m : Method} (hpath : Path codec s₀ w)
    (hin : w.st.client.insideCallback = true) (hlog : ∀ e ∈ w.log, e.frame < w.next) (d : Bool)
    (hm : Ends m w.st (w.st.onClient (.flag d true)) (.ok .unit)) :
    (gatewayContract codec s₀).Inv
        (((w.enter m).put (w.st.onClient (.flag d true))).push w.next (.ret (.ok .unit))) ∧
      (gatewayContract codec s₀).Rel ctx w
        (((w.enter m).put (w.st.onClient (.flag d true))).push w.next (.ret (.ok .unit))) := by
  have hput : Path codec s₀ ((w.enter m).put (w.st.onClient (.flag d true))) :=
    (hpath.step (.enter w m)).step (.flag _ d true)
  refine ⟨⟨?_, fun hout => ?_⟩, fun _ => passing_nested d true fun _ => rfl⟩
  · refine hput.step (.ret _ _ _ (fun t h => by cases h) fun e he hi m' hact => ?_)
    obtain ⟨rfl, hst⟩ := only_enter hlog m e he hi _ hact
    rw [hst]
    exact hm
  · exact absurd (hin.symm.trans hout) (by simp)

/-- The contract, where a nested call leaves the state as it was. -/
theorem nested_idle {m : Method} {r : Except Exc Return}
    (hpath : Path codec s₀ ((w.enter m).push w.next (.ret r)))
    (hin : w.st.client.insideCallback = true) (hreq : ¬ Requests ⟨w.next, .invoke m, w.st⟩) :
    (gatewayContract codec s₀).Inv ((w.enter m).push w.next (.ret r)) ∧
      (gatewayContract codec s₀).Rel ctx w ((w.enter m).push w.next (.ret r)) := by
  refine ⟨⟨hpath, fun hout => absurd (hin.symm.trans hout) (by simp)⟩, fun _ => ?_⟩
  have h := passing_nested (w := w) (r := r) false false fun h => absurd h hreq
  rw [onClient_flag_none] at h
  exact h

/-- A call that is refused. -/
theorem path_refused {m : Method} (e : Exc) (hpath : Path codec s₀ w)
    (hlog : ∀ e ∈ w.log, e.frame < w.next) (hp : m ≠ .poll) :
    Path codec s₀ ((w.enter m).push w.next (.ret (.error e))) := by
  have henter := hpath.step (.enter w m)
  cases hm : m.operates with
  | true => exact henter.step (.operate _ w.next m w.st _ w.log hm rfl (.refused m e))
  | false =>
    refine henter.step (.ret _ _ _ (fun t h => by cases h) fun x hx hi m' hact => ?_)
    obtain ⟨rfl, hst⟩ := only_enter hlog m x hx hi _ hact
    rw [hst]
    exact ends_refused e hm hp

/-- `_require_configuration_owner`. -/
theorem holds_requireOwner {K : Contract (gateway codec digest)} {owner : Option Owner}
    {Q : Except Exc Unit → GWorld digest → Prop} :
    Holds K ctx i (requireOwner owner) Q w ↔
      if owner = w.st.client.owner then Q (.ok ()) w else Q (.error (.gateway .identity)) w := by
  unfold requireOwner
  rw [holds_bind, holds_read]
  dsimp only
  by_cases h : owner = w.st.client.owner
  · rw [if_neg (not_not.2 h), if_pos h]
    rfl
  · rw [if_pos h, if_neg h]
    rfl

section Inside

variable {K : Contract (gateway codec digest)}

/-- A transaction within a callback is refused. -/
theorem holds_configuration_inside {α : Type} {owner : Option Owner} {body : GM digest α}
    {Q : Except Exc α → GWorld digest → Prop} (hin : w.st.client.insideCallback = true)
    (hQ : ∀ e, Q (.error e) w) : Holds K ctx i (configuration owner body) Q w := by
  unfold configuration
  rw [holds_bind, holds_requireOwner]
  split
  · rw [holds_bind, holds_read]
    dsimp only
    rw [if_pos (by rw [hin]; rfl)]
    exact hQ _
  · exact hQ _

theorem holds_transact_inside {α : Type} {f : Configuration digest → GM digest α}
    {Q : Except Exc α → GWorld digest → Prop} (hin : w.st.client.insideCallback = true)
    (hQ : ∀ e, Q (.error e) w) : Holds K ctx i (transact f) Q w := by
  unfold transact
  rw [holds_bind, holds_read]
  dsimp only
  cases w.st.config with
  | none => exact hQ _
  | some c => exact holds_configuration_inside hin hQ

/-- `cancel` within a callback leaves a flag. -/
theorem holds_cancel_inside {Q : Except Exc Unit → GWorld digest → Prop}
    (hin : w.st.client.insideCallback = true)
    (hQ : Q (.ok ()) (w.put (w.st.onClient (.flag false true)))) : Holds K ctx i (cancel codec) Q w := by
  unfold cancel
  rw [holds_bind, holds_read]
  dsimp only
  cases hact : w.st.client.active with
  | none =>
    have hsame : w.st.onClient (.flag false true) = w.st := by
      unfold Sys.onClient
      rw [Client.flag_idle hact]
    rw [hsame] at hQ
    exact hQ
  | some c =>
    dsimp only
    rw [holds_bind, holds_write]
    dsimp only
    rw [holds_bind, holds_read]
    dsimp only
    rw [if_pos (by exact hin)]
    exact hQ

/-- **How a nested call ends**: it is refused, or leaves flags. -/
inductive Answers (w : GWorld digest) (m : Method) : Except Exc Return → Sys digest → Prop
  | error (e) (hm : ¬ Requests ⟨w.next, .invoke m, w.st⟩) (hp : m ≠ .poll) : Answers w m (.error e) w.st
  | poll (hm : m = .poll) : Answers w m (.ok (.terminal none)) w.st
  | flag (d) (hm : m.asks = true) : Answers w m (.ok .unit) (w.st.onClient (.flag d true))

/-- **Nested calls** are refused, or leave flags. -/
theorem holds_inside (meth : Method) (hin : w.st.client.insideCallback = true) :
    Holds K ctx w.next (body codec meth)
      (fun r w' => ∃ s, Answers w meth r s ∧ w' = (w.enter meth).put s) (w.enter meth) := by
  -- refused: the state is as it was
  have herr : meth.asks = false → meth ≠ .poll → ∀ e : Exc,
      ∃ s, Answers w meth (.error e) s ∧ w.enter meth = (w.enter meth).put s :=
    fun hm hp e => ⟨w.st, .error e (not_requests hm) hp, rfl⟩
  have hbusy : ∀ p q r : Bool, (p || q || w.st.client.insideCallback || r) = true := by
    intro p q r
    rw [hin, Bool.or_true, Bool.true_or]
  cases meth with
  | start request =>
    refine holds_bind.2 ?_
    unfold start
    rw [holds_bind, holds_read]
    dsimp only
    rw [if_pos (by exact hbusy _ _ _)]
    exact herr rfl (by simp) _
  | poll =>
    refine holds_bind.2 ?_
    unfold poll
    rw [holds_bind, holds_read]
    dsimp only
    rw [if_pos (by show (w.st.client.insideCallback || _) = true; rw [hin]; rfl)]
    exact ⟨w.st, .poll rfl, rfl⟩
  | cancel =>
    refine holds_bind.2 (holds_cancel_inside hin ?_)
    exact ⟨_, .flag false rfl, rfl⟩
  | disable mine =>
    refine holds_bind.2 ?_
    unfold disable
    rw [holds_bind, holds_requireOwner]
    split
    · dsimp only
      rw [holds_bind, holds_write]
      refine holds_cancel_inside hin ?_
      have hsame : (w.st.onClient (.flag true false)).onClient (.flag false true) =
          w.st.onClient (.flag true true) := onClient_flag_flag w.st true false false true
      refine ⟨_, .flag true rfl, ?_⟩
      rw [← hsame]
      rfl
    · -- not the owner
      rename_i howner
      refine ⟨w.st, .error _ ?_ (by simp), rfl⟩
      rintro (h | ⟨mine', h, hown⟩)
      · cases h
      · cases h
        exact howner hown
  | claimConfiguration =>
    refine holds_bind.2 ?_
    unfold claimConfiguration
    rw [holds_bind, holds_read]
    dsimp only
    rw [if_pos (by show (_ || _ || _ || w.st.client.insideCallback || _) = true; rw [hin]; simp)]
    exact herr rfl (by simp) _
  | configuration mine =>
    exact holds_configuration_inside hin (herr rfl (by simp))
  | reconfigure host localRoute permit mine =>
    refine holds_bind.2 ?_
    unfold reconfigure
    rw [holds_bind, holds_requireOwner]
    split
    · rw [holds_bind, holds_read]
      dsimp only
      rw [if_pos (by show (_ || _ || w.st.client.insideCallback) = true; rw [hin]; simp)]
      exact herr rfl (by simp) _
    · exact herr rfl (by simp) _
  | configure =>
    refine holds_bind.2 ?_
    unfold configure claimConfiguration
    rw [holds_bind, holds_bind, holds_read]
    dsimp only
    rw [if_pos (by show (_ || _ || _ || w.st.client.insideCallback || _) = true; rw [hin]; simp)]
    exact herr rfl (by simp) _
  | stage parts => exact holds_transact_inside hin (herr rfl (by simp))
  | restore revision evidence =>
    exact holds_transact_inside hin (herr rfl (by simp))
  | observe candidate providerId status observedAtMs =>
    exact holds_transact_inside hin (herr rfl (by simp))
  | approve candidate bootstrap =>
    exact holds_transact_inside hin (herr rfl (by simp))
  | reject candidate => exact holds_transact_inside hin (herr rfl (by simp))
  | activate candidate receipt now =>
    exact holds_bind.2 (holds_transact_inside hin (herr rfl (by simp)))
  | disableConfiguration =>
    exact holds_bind.2 (holds_transact_inside hin (herr rfl (by simp)))

end Inside

/-- **Nested calls keep the contract.** -/
theorem nested_kept (meth : Method) (hpath : Path codec s₀ w)
    (hin : w.st.client.insideCallback = true) (hlog : ∀ e ∈ w.log, e.frame < w.next) :
    Holds (gatewayContract codec s₀) ctx w.next (body codec meth)
      (fun r w' => (gatewayContract codec s₀).Inv (w'.push w.next (.ret r)) ∧
        (gatewayContract codec s₀).Rel ctx w (w'.push w.next (.ret r))) (w.enter meth) := by
  refine (holds_inside meth hin).mono ?_
  rintro r w' ⟨s, hanswer, rfl⟩
  cases hanswer with
  | error e hm hp => exact nested_idle (path_refused e hpath hlog hp) hin hm
  | poll hm =>
    subst hm
    exact nested_idle ((hpath.step (.enter w _)).step (.refuse _ _ (.inl hin) (polls_enter hlog))) hin (not_requests rfl)
  | flag d hm =>
    refine nested_flag hpath hin hlog d ?_
    cases meth <;> first | rfl | cases hm

/-! ## One callback -/

/-- **After a callback** of activation `i`. -/
structure Invoked (codec : Codec) (s₀ : Sys digest) (i : ℕ) (op : Op) (a : Answer)
    (w w' : GWorld digest) : Prop where
  path : Path codec s₀ w'
  flags : ∃ d x, w'.st = w.st.onClient (.flag d x)
  log : ∃ s s' new, w'.log = ⟨i, .reply op a, s⟩ :: (new ++ ⟨i, .call op, s'⟩ :: w.log) ∧
    s'.client.active = w.st.client.active ∧
    (∃ d x, s.client = { w.st.client.flag d x with insideCallback := true }) ∧
    (∀ e ∈ new, Passive e.act = true ∧ e.frame ≠ i) ∧ ((∃ e ∈ new, Requests e) → Doomed w'.st)

/-- What `_invoke` gives: it raises what the callback raises. -/
def Answer.outcome : Answer → Except Exc Answer
  | .raised e => .error e
  | a => .ok a

theorem onClient_inside {s : Sys digest} (h : s.client.insideCallback = false) (d x : Bool) :
    ((s.onClient (.inside true)).onClient (.flag d x)).onClient (.inside false) =
      s.onClient (.flag d x) := by
  obtain ⟨⟨_, _, _, _, _, _, _, inside, _, _, _, _, _⟩, _, _⟩ := s
  cases h
  rfl

/-- **`_invoke`.** The callback is made, and answered, from where the steps allow it. -/
theorem holds_invoke {op : Op} {Q : Except Exc Answer → GWorld digest → Prop}
    (hin : w.st.client.insideCallback = false)
    (hcall : Path codec s₀ ((w.put (w.st.onClient (.inside true))).push i (.call op)))
    (hreply : ∀ w₁ a, op.admits a = true → Path codec s₀ w₁ →
      Passing ((w.put (w.st.onClient (.inside true))).push i (.call op)) w₁ →
      Path codec s₀ (w₁.push i (.reply op a)))
    (hQ : ∀ a w', op.admits a = true → Invoked codec s₀ i op a w w' → Q a.outcome w') :
    Holds (gatewayContract codec s₀) ctx i (invoke op) Q w := by
  unfold invoke
  rw [holds_bind, holds_write]
  dsimp only
  rw [holds_bind, holds_ask]
  refine ⟨⟨hcall, fun hout => by cases hout⟩, fun w₁ hinv₁ hgrow hrel a ha => ?_⟩
  have hpass := hrel rfl
  dsimp only
  rw [holds_bind, holds_write]
  have hout : Invoked codec s₀ i op a w
      ((w₁.push i (.reply op a)).put ((w₁.push i (.reply op a)).st.onClient (.inside false))) := by
    obtain ⟨⟨d, x, hst⟩, new, hlog, hpassive, hreq⟩ := hpass
    obtain ⟨-, new', hlog', hframe⟩ := hgrow
    have hnew : new = new' := List.append_cancel_right (hlog.symm.trans hlog')
    subst hnew
    have hback : (w₁.push i (.reply op a)).st.onClient (.inside false) = w.st.onClient (.flag d x) := by
      show w₁.st.onClient (.inside false) = _
      rw [hst]
      exact onClient_inside hin d x
    refine ⟨(hreply w₁ a ha hinv₁.1 (hrel rfl)).step (.inside _ false), ⟨d, x, hback⟩,
      w₁.st, w.st.onClient (.inside true), new, ?_, rfl, ⟨d, x, ?_⟩, fun e he => ?_, fun hr => ?_⟩
    · show ⟨i, Act.reply op a, w₁.st⟩ :: w₁.log = _
      rw [hlog]
      rfl
    · rw [hst]
      rfl
    · exact ⟨hpassive e he, (hframe e he).ne'⟩
    · exact hreq hr
  have hdone := hQ a _ ha hout
  cases a <;> exact hdone

/-- `_invoke` of a quiet callback. -/
theorem holds_invoke_quiet {op : Op} {Q : Except Exc Answer → GWorld digest → Prop}
    (hop : op.quiet = true) (hpath : Path codec s₀ w) (hin : w.st.client.insideCallback = false)
    (hQ : ∀ a w', Invoked codec s₀ i op a w w' → Q a.outcome w') :
    Holds (gatewayContract codec s₀) ctx i (invoke op) Q w :=
  holds_invoke hin ((hpath.step (.inside w true)).step (.ask _ i op hop))
    (fun w₁ a _ h₁ _ => h₁.step (.answer w₁ i op a hop)) fun a w' _ h => hQ a w' h

/-! ## What quiet steps keep -/

/-- No `begin` and no `cancel` of a job. -/
def Still : Act Op Answer Exc Method Return → Bool
  | .call op | .reply op _ => op.quiet
  | _ => true

theorem still_of_passive {x : Act Op Answer Exc Method Return} (h : Passive x = true) :
    Still x = true := by
  cases x <;> first | rfl | cases h

theorem debts_still {new log : List (GEntry digest)} (h : ∀ e ∈ new, Still e.act = true) :
    debts (new ++ log) = debts log := by
  induction new with
  | nil => rfl
  | cons e new ih =>
    have he := h e List.mem_cons_self
    rw [List.cons_append, ← ih fun x hx => h x (List.mem_cons_of_mem _ hx)]
    refine debts_other _ e.frame e.st fun op a hact => ?_
    rw [hact] at he
    exact he

theorem begins_still {new log : List (GEntry digest)} (h : ∀ e ∈ new, Still e.act = true)
    (id : String) : begins (new ++ log) id = begins log id := by
  induction new with
  | nil => rfl
  | cons e new ih =>
    have he := h e List.mem_cons_self
    rw [List.cons_append, ← ih fun x hx => h x (List.mem_cons_of_mem _ hx)]
    refine begins_other _ e.frame e.st (fun op hact => ?_) id
    rw [hact] at he
    exact Op.quiet_begins he

/-- **Quiet progress**: no attempt is begun, no job canceled, and of the client only the
active call, a flag and a fault may differ. -/
structure Quiet (a b : GWorld digest) : Prop where
  client : b.st.client = { a.st.client with
    active := b.st.client.active, disabled := b.st.client.disabled, fault := b.st.client.fault }
  trail : b.st.trail = a.st.trail
  status : b.st.status = a.st.status
  doomed : Doomed a.st → Doomed b.st
  log : ∃ new, b.log = new ++ a.log ∧ (∀ e ∈ new, Still e.act = true) ∧
    ((∃ e ∈ new, Requests e) → Doomed b.st)

theorem Quiet.refl (w : GWorld digest) : Quiet w w :=
  ⟨rfl, rfl, rfl, fun h => h, [], rfl, by simp, by simp⟩

theorem Quiet.trans {a b c : GWorld digest} (h : Quiet a b) (h' : Quiet b c) : Quiet a c := by
  obtain ⟨new, hl, hs, hr⟩ := h.log
  obtain ⟨new', hl', hs', hr'⟩ := h'.log
  refine ⟨?_, h'.trail.trans h.trail, h'.status.trans h.status, fun hd => h'.doomed (h.doomed hd), new' ++ new,
    by rw [hl', hl, List.append_assoc], fun e he => ?_, ?_⟩
  · rw [h'.client, h.client]
  · rcases List.mem_append.1 he with he | he
    · exact hs' e he
    · exact hs e he
  · rintro ⟨e, he, hreq⟩
    rcases List.mem_append.1 he with he | he
    · exact hr' ⟨e, he, hreq⟩
    · exact h'.doomed (hr ⟨e, he, hreq⟩)

theorem Quiet.debts {a b : GWorld digest} (h : Quiet a b) : debts b.log = debts a.log := by
  obtain ⟨new, hl, hs, -⟩ := h.log
  rw [hl]
  exact debts_still hs

theorem Quiet.begins {a b : GWorld digest} (h : Quiet a b) (id : String) :
    begins b.log id = begins a.log id := by
  obtain ⟨new, hl, hs, -⟩ := h.log
  rw [hl]
  exact begins_still hs id

theorem Quiet.mem {a b : GWorld digest} (h : Quiet a b) {e : GEntry digest} (he : e ∈ a.log) :
    e ∈ b.log := by
  obtain ⟨new, hl, -⟩ := h.log
  rw [hl]
  exact List.mem_append_right _ he

theorem Quiet.disturbed {a b : GWorld digest} (h : Quiet a b) (hd : Disturbed a.log) :
    Disturbed b.log := by
  obtain ⟨e, he, hx⟩ := hd
  exact ⟨e, h.mem he, hx⟩

theorem Quiet.unasked {a b : GWorld digest} (h : Quiet a b) (hu : Unasked i a.log)
    (hd : ¬ Doomed b.st) : Unasked i b.log := by
  obtain ⟨new, hl, -, hr⟩ := h.log
  obtain ⟨newer, e, older, m, hlog, hi, hact, hnone⟩ := hu
  refine ⟨new ++ newer, e, older, m, by rw [hl, hlog, List.append_assoc], hi, hact, fun x hx hreq => ?_⟩
  rcases List.mem_append.1 hx with hx | hx
  · exact hd (hr ⟨x, hx, hreq⟩)
  · exact hnone x hx hreq

/-- A quiet callback is quiet progress. -/
theorem Invoked.quiet {op : Op} {a : Answer} (h : Invoked codec s₀ i op a w w')
    (hop : op.quiet = true) : Quiet w w' := by
  obtain ⟨d, x, hst⟩ := h.flags
  obtain ⟨s, s', new, hl, -, -, hnew, hr⟩ := h.log
  refine ⟨by rw [hst]; rfl, by rw [hst]; rfl, by rw [hst]; rfl, fun hd => by rw [hst]; exact hd.flag d x,
    ⟨i, .reply op a, s⟩ :: (new ++ [⟨i, .call op, s'⟩]), by rw [hl]; simp, fun e he => ?_, ?_⟩
  · simp only [List.mem_cons, List.mem_append, List.not_mem_nil, or_false] at he
    rcases he with rfl | he | rfl
    · exact hop
    · exact still_of_passive (hnew e he).1
    · exact hop
  · rintro ⟨e, he, hreq⟩
    simp only [List.mem_cons, List.mem_append, List.not_mem_nil, or_false] at he
    rcases he with rfl | he | rfl
    · rcases hreq with h | ⟨_, h, -⟩ <;> cases h
    · exact hr ⟨e, he, hreq⟩
    · rcases hreq with h | ⟨_, h, -⟩ <;> cases h

end Gateway

end Arhugula
