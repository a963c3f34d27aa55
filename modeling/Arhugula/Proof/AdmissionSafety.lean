import Mathlib.Data.List.Infix
import Mathlib.Logic.Relation
import Arhugula.Spec.Admission
import Arhugula.Proof.GatewaySafety

/-!
# Ids are used once

A history of ids only changes by `claim` (`Claims`), so it holds no id twice, never forgets one and never grows beyond
its limit. Both owners of a history keep to that: the `Admission`, call after call, and the `GatewayClient`, in every
run with its callbacks. What either refuses claims nothing.
-/

namespace Arhugula

namespace Gateway

open Reentrant Providers

/-! ## Claims -/

/-- **From one history to a later one**, by claims. -/
def Claims : List String → List String → Prop := Relation.ReflTransGen fun ids ids' => ∃ id, claim ids id = .ok ids'

theorem claim_ok {ids ids' : List String} {id : String} :
    claim ids id = .ok ids' ↔ id ∉ ids ∧ ids.length < historyLimit ∧ ids' = id :: ids := by
  unfold claim
  by_cases hmem : id ∈ ids
  · simp [hmem]
  · by_cases hfull : historyLimit ≤ ids.length
    · have hroom : ¬ ids.length < historyLimit := by omega
      simp [hmem, hfull, hroom]
    · have hroom : ids.length < historyLimit := by omega
      simp [hmem, hfull, hroom, eq_comm]

theorem claim_replay {ids : List String} {id : String} : claim ids id = .error .replay ↔ id ∈ ids := by
  unfold claim
  by_cases hmem : id ∈ ids
  · simp [hmem]
  · by_cases hfull : historyLimit ≤ ids.length
    · simp [hmem, hfull]
    · simp [hmem, hfull]

/-- Ids are held once, and not too many. -/
structure Once (ids : List String) : Prop where
  nodup : ids.Nodup
  few : ids.length ≤ historyLimit

theorem Once.nil : Once [] := ⟨List.nodup_nil, Nat.zero_le _⟩

variable {ids ids' : List String}

theorem Claims.once (h : Claims ids ids') (hids : Once ids) : Once ids' := by
  induction h with
  | refl => exact hids
  | tail _ hclaim ih =>
    obtain ⟨id, hclaim⟩ := hclaim
    obtain ⟨hnew, hroom, rfl⟩ := claim_ok.1 hclaim
    exact ⟨List.nodup_cons.2 ⟨hnew, ih.nodup⟩, hroom⟩

/-- No id is evicted. -/
theorem Claims.suffix (h : Claims ids ids') : ids <:+ ids' := by
  induction h with
  | refl => exact List.suffix_rfl
  | tail _ hclaim ih =>
    obtain ⟨id, hclaim⟩ := hclaim
    obtain ⟨-, -, rfl⟩ := claim_ok.1 hclaim
    exact ih.trans (List.suffix_cons id _)

/-! ## Admission -/

section Admission

variable {codec : Codec} {a : Admission} {calls : ℕ → Option String × Option Bytes}

/-- What a request has to be for an admission, its authorization apart. -/
structure Admission.Suits (codec : Codec) (a : Admission) (raw : Option Bytes) (r : Request) : Prop where
  parsed : parseRequest codec raw = .ok r
  provider : checkProvider r a.provider a.catalogVersion = .ok ()

/-- What a call of `admits` does: it refuses, or claims the id of the request. -/
theorem admits_cases (codec : Codec) (a : Admission) (authorization : Option String) (raw : Option Bytes) :
    (∃ code, a.admits codec authorization raw = (a, .error code)) ∨
    ∃ r, a.bearer.accepts authorization = true ∧ a.Suits codec raw r ∧ r.requestId ∉ a.history ∧
      a.history.length < historyLimit ∧
      a.admits codec authorization raw = ({ a with history := r.requestId :: a.history }, .ok r) := by
  unfold Admission.admits
  by_cases hauth : a.bearer.accepts authorization = true
  · cases hparse : parseRequest codec raw with
    | error code => exact .inl ⟨code, by simp [hauth]⟩
    | ok r =>
      cases hcheck : checkProvider r a.provider a.catalogVersion with
      | error code => exact .inl ⟨code, by simp [hauth, hcheck]⟩
      | ok u =>
        cases hclaim : claim a.history r.requestId with
        | error code => exact .inl ⟨code, by simp [hauth, hcheck, hclaim]⟩
        | ok ids =>
          obtain ⟨hnew, hroom, rfl⟩ := claim_ok.1 hclaim
          exact .inr ⟨r, hauth, ⟨hparse, hcheck⟩, hnew, hroom, by simp [hauth, hcheck, hclaim]⟩
  · exact .inl ⟨.authentication, by simp [hauth]⟩

/-- A request that suits, from an authenticated caller, is only refused for its id. -/
theorem admits_suits {authorization : Option String} {raw : Option Bytes} {r : Request}
    (hauth : a.bearer.accepts authorization = true) (hs : a.Suits codec raw r) :
    a.admits codec authorization raw = match claim a.history r.requestId with
      | .error code => (a, .error code)
      | .ok ids => ({ a with history := ids }, .ok r) := by
  unfold Admission.admits
  cases hclaim : claim a.history r.requestId with
  | error code => simp [hauth, hs.parsed, hs.provider, hclaim]
  | ok ids => simp [hauth, hs.parsed, hs.provider, hclaim]

/-- What the next call does. -/
theorem call_cases (codec : Codec) (a : Admission) (calls : ℕ → Option String × Option Bytes) (n : ℕ) :
    (∃ code, a.answer codec calls n = .error code ∧ a.after codec calls (n + 1) = a.after codec calls n) ∨
    ∃ r, a.answer codec calls n = .ok r ∧
      claim (a.after codec calls n).history r.requestId = .ok (r.requestId :: (a.after codec calls n).history) ∧
      a.after codec calls (n + 1) =
        { a.after codec calls n with history := r.requestId :: (a.after codec calls n).history } := by
  rcases admits_cases codec (a.after codec calls n) (calls n).1 (calls n).2 with
    ⟨code, heq⟩ | ⟨r, -, -, hnew, hroom, heq⟩
  · exact .inl ⟨code, congrArg Prod.snd heq, congrArg Prod.fst heq⟩
  · exact .inr ⟨r, congrArg Prod.snd heq, claim_ok.2 ⟨hnew, hroom, rfl⟩, congrArg Prod.fst heq⟩

/-- Only the history changes. -/
theorem after_fixed (codec : Codec) (a : Admission) (calls : ℕ → Option String × Option Bytes) (n : ℕ) : a.after codec calls n = { a with history := (a.after codec calls n).history } := by
  induction n with
  | zero => rfl
  | succ n ih =>
    rcases call_cases codec a calls n with ⟨code, -, heq⟩ | ⟨r, -, -, heq⟩
    · rw [heq]
      exact ih
    · rw [heq]
      dsimp only
      rw [ih]

theorem after_claims (codec : Codec) (a : Admission) (calls : ℕ → Option String × Option Bytes) {m n : ℕ}
    (h : m ≤ n) : Claims (a.after codec calls m).history (a.after codec calls n).history := by
  induction n, h using Nat.le_induction with
  | base => exact .refl
  | succ n _ ih =>
    rcases call_cases codec a calls n with ⟨code, -, heq⟩ | ⟨r, -, hclaim, heq⟩
    · rw [heq]
      exact ih
    · rw [heq]
      exact ih.tail ⟨r.requestId, hclaim⟩

/-- The ids that the first calls had admitted, newest first. -/
def admitted (codec : Codec) (a : Admission) (calls : ℕ → Option String × Option Bytes) : ℕ → List String
  | 0 => []
  | n + 1 => match a.answer codec calls n with
    | .ok r => r.requestId :: admitted codec a calls n
    | .error _ => admitted codec a calls n

theorem mem_admitted {id : String} {n : ℕ} : id ∈ admitted codec a calls n ↔
    ∃ m < n, ∃ r, a.answer codec calls m = .ok r ∧ r.requestId = id := by
  induction n with
  | zero => simp [admitted]
  | succ n ih =>
    have hsplit : (∃ m < n + 1, ∃ r, a.answer codec calls m = .ok r ∧ r.requestId = id) ↔
        (∃ r, a.answer codec calls n = .ok r ∧ r.requestId = id) ∨
          ∃ m < n, ∃ r, a.answer codec calls m = .ok r ∧ r.requestId = id := by
      constructor
      · rintro ⟨m, hm, hr⟩
        rcases Nat.lt_succ_iff_lt_or_eq.1 hm with hm | rfl
        · exact .inr ⟨m, hm, hr⟩
        · exact .inl hr
      · rintro (hr | ⟨m, hm, hr⟩)
        · exact ⟨n, by omega, hr⟩
        · exact ⟨m, by omega, hr⟩
    rw [hsplit, ← ih, admitted]
    cases a.answer codec calls n with
    | error code => simp
    | ok r => simp [eq_comm]

theorem admitted_history (h : a.history = []) (n : ℕ) :
    admitted codec a calls n = (a.after codec calls n).history := by
  induction n with
  | zero => exact h.symm
  | succ n ih =>
    rcases call_cases codec a calls n with ⟨code, hans, heq⟩ | ⟨r, hans, -, heq⟩
    · rw [admitted, hans, heq]
      exact ih
    · rw [admitted, hans, heq, ← ih]

/-- **What an admission keeps to**, whatever the calls. -/
structure Admits (codec : Codec) (a : Admission) (calls : ℕ → Option String × Option Bytes) : Prop where
  /-- It holds the ids that it admitted, each once, and not too many. -/
  held : ∀ n, admitted codec a calls n = (a.after codec calls n).history ∧ Once (a.after codec calls n).history
  /-- None is evicted. -/
  kept : ∀ m n, m ≤ n → (a.after codec calls m).history <:+ (a.after codec calls n).history
  /-- A call that is refused claims nothing. -/
  refused : ∀ n code, a.answer codec calls n = .error code → a.after codec calls (n + 1) = a.after codec calls n
  /-- Only an id that was admitted before is a replay; any other is admitted while there is room. -/
  usable : ∀ n r, a.bearer.accepts (calls n).1 = true → a.Suits codec (calls n).2 r →
    (a.answer codec calls n = .error .replay ↔
      ∃ m < n, ∃ r', a.answer codec calls m = .ok r' ∧ r'.requestId = r.requestId) ∧
    (a.answer codec calls n = .ok r ↔
      (∀ m < n, ∀ r', a.answer codec calls m = .ok r' → r'.requestId ≠ r.requestId) ∧
        (admitted codec a calls n).length < historyLimit)
  /-- A caller that is not authenticated is refused, whatever the body is and however it would be parsed. -/
  authentication : ∀ n, a.bearer.accepts (calls n).1 = false → ∀ codec' raw,
    (a.after codec calls n).admits codec' (calls n).1 raw = (a.after codec calls n, .error .authentication)

theorem admits_all (h : a.history = []) : Admits codec a calls where
  held n := by
    have hclaims := after_claims codec a calls (Nat.zero_le n)
    refine ⟨admitted_history h n, hclaims.once ?_⟩
    show Once a.history
    rw [h]
    exact Once.nil
  kept m n hmn := (after_claims codec a calls hmn).suffix
  refused n code hans := by
    rcases call_cases codec a calls n with ⟨-, -, heq⟩ | ⟨r, hok, -, -⟩
    · exact heq
    · rw [hans] at hok
      cases hok
  usable n r hauth hs := by
    have hfixed := after_fixed codec a calls n
    have hauth' : (a.after codec calls n).bearer.accepts (calls n).1 = true := by
      rw [hfixed]
      exact hauth
    have hs' : (a.after codec calls n).Suits codec (calls n).2 r := by
      rw [hfixed]
      exact ⟨hs.parsed, hs.provider⟩
    have hans : a.answer codec calls n = (match claim (a.after codec calls n).history r.requestId with
        | .error code => .error code
        | .ok _ => .ok r) := by
      show (Admission.admits codec (a.after codec calls n) (calls n).1 (calls n).2).2 = _
      rw [admits_suits hauth' hs']
      cases claim (a.after codec calls n).history r.requestId <;> rfl
    rw [← admitted_history h] at hans
    have hnone : (∀ m < n, ∀ r', a.answer codec calls m = .ok r' → r'.requestId ≠ r.requestId) ↔
        r.requestId ∉ admitted codec a calls n := by
      rw [mem_admitted]
      constructor
      · rintro hall ⟨m, hm, r', hr', heq⟩
        exact hall m hm r' hr' heq
      · intro hnot m hm r' hr' heq
        exact hnot ⟨m, hm, r', hr', heq⟩
    rw [hnone, ← mem_admitted, hans]
    unfold claim
    by_cases hmem : r.requestId ∈ admitted codec a calls n
    · simp [hmem]
    · by_cases hfull : historyLimit ≤ (admitted codec a calls n).length
      · have hroom : ¬ (admitted codec a calls n).length < historyLimit := by omega
        simp [hmem, hfull, hroom]
      · have hroom : (admitted codec a calls n).length < historyLimit := by omega
        simp [hmem, hfull, hroom]
  authentication n hauth codec' raw := by
    have hauth' : (a.after codec calls n).bearer.accepts (calls n).1 = false := by
      rw [after_fixed]
      exact hauth
    unfold Admission.admits
    rw [hauth']
    rfl

end Admission

/-! ## The client -/

section Client

variable {digest : Manifest → String} {codec : Codec} {s₀ : Sys digest} {w w' : GWorld digest}

theorem claims_step (hs : Step codec w w') : Claims w.st.client.history w'.st.client.history := by
  cases hs with
  | accept r _ _ hr hl => exact .single ⟨r.requestId, claim_ok.2 ⟨hr, hl, rfl⟩⟩
  | deliver i _ _ _ _ =>
    have hsame : w.st.deliver.client.history = w.st.client.history := by
      unfold Sys.deliver
      split <;> rfl
    show Claims _ w.st.deliver.client.history
    rw [hsame]
    exact .refl
  | operate i m s r rest _ _ hop => cases hop <;> exact .refl
  | _ => exact .refl

/-- **The history along a path**: it changes by claims only. -/
theorem Path.claims (h : Path codec s₀ w) :
    Claims s₀.client.history w.st.client.history ∧ ∀ e ∈ w.log, Claims e.st.client.history w.st.client.history := by
  refine h.induction (P := fun w => Claims s₀.client.history w.st.client.history ∧
    ∀ e ∈ w.log, Claims e.st.client.history w.st.client.history) ⟨.refl, fun e he => (by cases he)⟩ ?_
  intro w w' _ hw hs
  obtain ⟨hstart, hlog⟩ := hw
  have hclaims := claims_step hs
  refine ⟨hstart.trans hclaims, fun e he => ?_⟩
  rcases hs.log with heq | ⟨x, heq, -, hst⟩
  · exact (hlog e (heq ▸ he)).trans hclaims
  · rw [heq] at he
    rcases List.mem_cons.1 he with rfl | he
    · rw [hst]
      exact .refl
    · exact (hlog e he).trans hclaims

/-- A client that takes this request, its id apart. -/
structure Client.Suits (c : Client) (r : Request) : Prop where
  idle : Idle c
  outside : c.insideCallback = false ∧ c.configuring = false
  enabled : c.disabled = false
  version : r.catalogVersion = c.catalogVersion
  provider : r.providerId = c.host.provider.providerId ∧ r.modelVersion = c.host.provider.modelVersion

theorem advance_read {α : Type} {i : ℕ} {stack : List (Frame (Sys digest) Op Answer Exc Return)}
    {f : Sys digest → α} {k : α → GM digest Unit} {g : Unit → GM digest Return} {w : GWorld digest} :
    advance i stack ((Prog.read f >>= k) >>= g) w = advance i stack (k (f w.st) >>= g) w := rfl

theorem ofCode_ok {α : Type} {a : α} {k : α → GM digest Unit} : (ofCode (.ok a) >>= k) = k a := rfl

/-- A request that suits is only refused for its id. -/
theorem start_suits {cfg : GConfig digest} {request r : Request} {raw : Bytes}
    (hraw : requestBytes codec (some request) = .ok raw) (hparse : parseRequest codec (some raw) = .ok r)
    (hs : cfg.w.st.client.Suits r) :
    ∃ cfg', (gateway codec digest).step cfg (.invoke (.start (some request))) = some cfg' ∧
      match claim cfg.w.st.client.history r.requestId with
      | .error code => cfg'.w = (cfg.w.enter (.start (some request))).push cfg.w.next (.ret (.error (.gateway code)))
      | .ok ids => cfg'.w.st.client.history = ids ∧ cfg'.w.st.client.active = some (.new r cfg.w.st.client.host) := by
  refine ⟨_, rfl, ?_⟩
  have hbusy : (cfg.w.st.client.active.isSome || cfg.w.st.client.terminal.isSome ||
      cfg.w.st.client.insideCallback || cfg.w.st.client.configuring) = false := by
    simp [hs.idle.active, hs.idle.terminal, hs.outside.1, hs.outside.2]
  show match claim cfg.w.st.client.history r.requestId with
    | .error code => (advance _ _ (start codec (some request) >>= fun _ => pure Return.unit) _).w = _
    | .ok ids => (advance _ _ (start codec (some request) >>= fun _ => pure Return.unit) _).w.st.client.history = ids ∧
      (advance _ _ (start codec (some request) >>= fun _ => pure Return.unit) _).w.st.client.active = _
  unfold start claim
  rw [advance_read, hraw]
  simp only [World.enter_st, hbusy, hs.idle.fault, hs.enabled, ofCode_ok, hparse, hs.version, hs.provider.1,
    hs.provider.2, Bool.false_eq_true, if_false, ne_eq, not_true_eq_false, or_self]
  by_cases hmem : cfg.w.st.client.history.contains r.requestId = true
  · simp only [hmem, if_true]
    rfl
  · by_cases hfull : historyLimit ≤ cfg.w.st.client.history.length
    · simp only [hmem, hfull, if_true]
      rfl
    · simp only [hmem, hfull]
      exact ⟨rfl, rfl⟩

/-- **What a client keeps to**, whatever is called and whatever fails. -/
structure Starts (codec : Codec) (cfg : GConfig digest) : Prop where
  /-- It holds the ids of the calls that it started, each once, and not too many. -/
  held : accepted cfg.w.st.trail = cfg.w.st.client.history ∧ Once cfg.w.st.client.history
  /-- None is evicted. -/
  kept : ∀ e ∈ cfg.w.log, e.st.client.history <:+ cfg.w.st.client.history
  /-- A start that is refused claims nothing. -/
  refused : ∀ newer (e : GEntry digest) older code, cfg.w.log = newer ++ e :: older → e.act = .ret (.error (.gateway code)) →
    ∀ m ∈ older, m.frame = e.frame → ∀ request, m.act = .invoke (.start request) →
      e.st.client.history = m.st.client.history
  /-- Only an id that was started before is a replay; any other is started while there is room. -/
  usable : ∀ request raw r, requestBytes codec (some request) = .ok raw → parseRequest codec (some raw) = .ok r →
    cfg.w.st.client.Suits r →
    ∃ cfg', (gateway codec digest).step cfg (.invoke (.start (some request))) = some cfg' ∧
      match claim (accepted cfg.w.st.trail) r.requestId with
      | .error code => cfg'.w = (cfg.w.enter (.start (some request))).push cfg.w.next (.ret (.error (.gateway code)))
      | .ok ids => cfg'.w.st.client.history = ids ∧ cfg'.w.st.client.active = some (.new r cfg.w.st.client.host)

theorem starts_reachable {host : Host} {localRoute : Option Local} {version : ℤ} {cfg : GConfig digest}
    (h : (gateway codec digest).Reachable (fresh digest host localRoute version) cfg) : Starts codec cfg := by
  have hpath := reachable_path fresh_fresh h
  have hlife := hpath.lifecycle fresh_fresh
  refine ⟨⟨hlife.life.accepted, hpath.claims.1.once Once.nil⟩, fun e he => (hpath.claims.2 e he).suffix, ?_, ?_⟩
  · intro newer e older code hlog hact m hm hf request hmeth
    exact (hlife.refused newer e older code hlog hact m hm hf request hmeth).2.2
  · intro request raw r hraw hparse hs
    rw [hlife.life.accepted]
    exact start_suits hraw hparse hs

end Client

/-- **No id is used twice**, by an admission or by a client, over its whole life. -/
theorem replay_protected {codec : Codec} {a : Admission} {calls : ℕ → Option String × Option Bytes}
    {digest : Manifest → String} {host : Host} {localRoute : Option Local} {version : ℤ} {cfg : GConfig digest}
    (ha : a.history = []) (h : (gateway codec digest).Reachable (fresh digest host localRoute version) cfg) :
    Admits codec a calls ∧ Starts codec cfg :=
  ⟨admits_all ha, starts_reachable h⟩

namespace Example

def bearer : Bearer := ⟨"0123456789abcdef0123456789abcdef", by decide +kernel⟩

/-- An admission for the provider of the client's host route. -/
def admission : Admission := .new hostRoute.provider rfl 1 bearer

/-- The client's request, again and again; first without the bearer. -/
def requests (n : ℕ) : Option String × Option Bytes :=
  (if n = 0 then none else some bearer.header, some (requestText "host-llm" "m1"))

end Example

theorem replay_protected_example : ∃ cfg : GConfig Example.noDigest,
    Starts Example.json cfg ∧ cfg.w.st.client.history = ["r1"] ∧
    Admits Example.json Example.admission Example.requests ∧
    Example.admission.answer Example.json Example.requests 0 = .error .authentication ∧
    Example.admission.answer Example.json Example.requests 1 = .ok Example.question ∧
    Example.admission.answer Example.json Example.requests 2 = .error .replay := by
  obtain ⟨cfg, hcfg, ht⟩ := Machine.Reachable.of_run (gateway Example.json Example.noDigest) Example.client
    (Example.begun ++ Example.canceled) (fun c => c.w.st.client.history = ["r1"])
    (by rw [Example.json_data]; decide +kernel)
  have hboth : Admits Example.json Example.admission Example.requests ∧ Starts Example.json cfg :=
    replay_protected rfl hcfg
  have hanswers : Example.admission.answer Example.json Example.requests 0 = .error .authentication ∧
      Example.admission.answer Example.json Example.requests 1 = .ok Example.question ∧
      Example.admission.answer Example.json Example.requests 2 = .error .replay := by
    decide +kernel
  exact ⟨cfg, hboth.2, of_decide_eq_true ht, hboth.1, hanswers⟩

end Gateway

end Arhugula
