import Arhugula.Proof.GatewayTrace
import Arhugula.Sequence.Bytes

/-!
# What the gateway client guarantees

For every run, with arbitrary behaviour of the clock, transport, local adapter, permit and
job callbacks, each of which may call any public method:

* `call_lifecycle`: each accepted call stores one terminal, which one poll delivers;
* `cleanup_latch`: what was begun is cleaned up, or the client takes no more calls;
* `disclosure`: what an attempt was begun on, and what a success was made from.

The parts about a recorded fault need that no callback raised what is no `Exception`: such a
raise leaves the call active without its job, and the next poll takes that for a failure of
the provider (`begins_after_fault`).
-/

namespace Arhugula

namespace Gateway

open Reentrant Providers

variable {digest : Manifest → String} {codec : Codec} {s₀ : Sys digest} {w : GWorld digest}
  {host : Host} {localRoute : Option Local} {version : ℤ}

/-- A configuration of the gateway. -/
abbrev GConfig (digest : Manifest → String) := Config (Sys digest) Op Answer Exc Method Return

theorem fresh_fresh : Fresh (fresh digest host localRoute version) := ⟨host, localRoute, version, rfl⟩

/-! ## The life of a call -/

/-- **The life of the calls, in a run.** -/
structure Lifecycle (w : GWorld digest) : Prop where
  /-- Each accepted call is active or has stored one terminal, and the terminals are delivered
  in that order. -/
  life : Life w.st
  /-- Polls return what is delivered. -/
  returned : returned w.log = (delivered w.st.trail).map Prod.snd
  /-- Only polls do. One that is not refused leaves nothing undelivered. -/
  polls : ∀ newer (e : GEntry digest) older, w.log = newer ++ e :: older → ∀ t, e.act = .ret (.ok (.terminal t)) →
    Polls e.frame older ∧
      ((t = none ∧ (e.st.client.insideCallback = true ∨ e.st.client.configuring = true)) ∨
        stored e.st.trail = delivered e.st.trail)
  /-- One that raises was advancing a call. -/
  raised : ∀ newer (e : GEntry digest) older x, w.log = newer ++ e :: older → e.act = .ret (.error x) →
    ∀ m ∈ older, m.frame = e.frame → m.act = .invoke .poll → m.st.client.active.isSome
  /-- One job is owned at most, and it is all that is not cleaned up. -/
  owned : (debts w.log).length ≤ 1 ∧ ∀ c j, w.st.client.active = some c → c.job = some j →
    debts w.log = [some j]
  /-- A refused `start` changes nothing. -/
  refused : ∀ newer (e : GEntry digest) older code, w.log = newer ++ e :: older → e.act = .ret (.error (.gateway code)) →
    ∀ m ∈ older, m.frame = e.frame → ∀ request, m.act = .invoke (.start request) →
      e.st.client.active = m.st.client.active ∧ e.st.client.terminal = m.st.client.terminal ∧
        e.st.client.history = m.st.client.history
  /-- One attempt on the host route at most, then one on the local route at most. -/
  attempts : ∀ id, begins w.log id = [] ∨ begins w.log id = [true] ∨ begins w.log id = [false] ∨
    begins w.log id = [false, true]

theorem Path.polls (h₀ : Fresh s₀) (h : Path codec s₀ w) {newer older : List (GEntry digest)}
    {e : GEntry digest} {t : Option Terminal} (hlog : w.log = newer ++ e :: older)
    (hact : e.act = .ret (.ok (.terminal t))) : Polls e.frame older ∧
      ((t = none ∧ (e.st.client.insideCallback = true ∨ e.st.client.configuring = true)) ∨
        stored e.st.trail = delivered e.st.trail) := by
  obtain ⟨a, a', hpa, hpa', hla, -, hst, hpush⟩ := h.entry hlog
  cases hpush with
  | ret i r hr _ =>
    cases hact
    exact absurd rfl (hr t)
  | refuse i hbusy hp =>
    cases hact
    exact ⟨hla ▸ hp, .inl ⟨rfl, hbusy⟩⟩
  | deliver i _ _ hp =>
    refine ⟨hla ▸ hp, .inr ?_⟩
    obtain ⟨l, hl, hlt⟩ := (hpa'.lives h₀).life.waiting
    have hnone : a'.st.client.terminal = none := by
      rw [hst]
      show a.st.deliver.client.terminal = none
      unfold Sys.deliver
      split
      · assumption
      · rfl
    rw [hnone] at hlt
    obtain rfl : l = [] := by simpa using hlt
    rw [hst] at hl
    exact hl
  | operate i m s r rest _ _ hop =>
    cases hact
    cases hop
  | _ => cases hact

/-- How a call that is no operation of a configuration ended. -/
theorem Path.ends (h : Path codec s₀ w) {newer older : List (GEntry digest)} {e m : GEntry digest}
    {x : Exc} {meth : Method} (hlog : w.log = newer ++ e :: older) (hact : e.act = .ret (.error x))
    (hm : m ∈ older) (hf : m.frame = e.frame) (hmeth : m.act = .invoke meth)
    (hop : meth.operates = false) : Ends meth m.st e.st (.error x) := by
  obtain ⟨a, a', hpa, hpa', hla, -, hst, hpush⟩ := h.entry hlog
  subst hla
  cases hpush with
  | ret i r _ hends =>
    cases hact
    exact hends m hm hf meth hmeth
  | operate i m' s r rest hm' hl _ =>
    have hmem : ⟨i, .invoke m', a.st⟩ ∈ a.log := by rw [hl]; exact List.mem_cons_self
    have heq := hpa.singular.2 m hm _ hmem hf _ _ hmeth rfl
    rw [heq] at hmeth
    cases hmeth
    rw [hm'] at hop
    cases hop
  | _ => cases hact

theorem Path.lifecycle (h₀ : Fresh s₀) (h : Path codec s₀ w) : Lifecycle w where
  life := (h.lives h₀).life
  returned := (h.lives h₀).returned
  polls _ _ _ hlog _ hact := h.polls h₀ hlog hact
  raised _ _ _ _ hlog hact _ hm hf hmeth := h.ends hlog hact hm hf hmeth rfl
  owned := ⟨(h.books h₀).few, fun c j hc hj => ((h.books h₀).owned c hc j hj).1⟩
  refused _ _ _ code hlog hact _ hm hf _ hmeth := h.ends hlog hact hm hf hmeth rfl code rfl
  attempts := (h.tries h₀).shape

/-- A poll that is not refused delivers what waits. -/
theorem poll_delivers {cfg : GConfig digest} (hl : Life cfg.w.st) {t : Terminal}
    (ht : cfg.w.st.client.terminal = some t) (hin : cfg.w.st.client.insideCallback = false)
    (hconf : cfg.w.st.client.configuring = false) :
    (gateway codec digest).step cfg (.invoke .poll) =
      some ⟨((cfg.w.enter .poll).put cfg.w.st.deliver).push cfg.w.next (.ret (.ok (.terminal (some t)))),
        cfg.stack⟩ := by
  have hactive : cfg.w.st.client.active = none := by
    by_contra hne
    have := hl.exclusive (Option.isSome_iff_ne_none.2 hne)
    rw [ht] at this
    cases this
  obtain ⟨⟨⟨⟨_, _, _, _, active, terminal, _, inside, _, configuring, _, _, _⟩, _, _⟩, _, _⟩, _⟩ := cfg
  cases hactive
  cases ht
  cases hin
  cases hconf
  rfl

/-! ## An example -/

namespace Example

def hostRoute : Host where
  provider := ⟨"host-llm", .host, "m1", true, .healthy, ["llm"]⟩
  endpoint := ⟨"https://host.internal/v1", "peer-1"⟩
  bearer := "token"
  transport := 0
  placed := rfl

def vmRoute : Local where
  provider := ⟨"vm-llm", .vm, "m2", true, .healthy, ["llm"]⟩
  begins := 0
  placed := rfl

def question : Request := ⟨"r1", "host-llm", "m1", 1, 1000, .llm "Hi" "" []⟩

/-- The texts of the request and of a reply, for a provider with a model version. -/
def envelopeText (providerId modelVersion : String) : String :=
  "\x7b\"version\":1,\"request_id\":\"r1\",\"service\":\"llm\",\"provider_id\":\"" ++ providerId ++
    "\",\"model_version\":\"" ++ modelVersion ++ "\",\"catalog_version\":1,"

def requestText (providerId modelVersion : String) : Bytes :=
  (envelopeText providerId modelVersion ++ "\"budget_ms\":1000,\"payload\":" ++
    "\x7b\"text\":\"Hi\",\"context\":\"\",\"candidates\":[]\x7d\x7d").toUTF8.toList

def replyText (providerId modelVersion : String) : Bytes :=
  (envelopeText providerId modelVersion ++ "\"status\":\"ok\",\"result\":" ++
    "\x7b\"text\":\"Hello\",\"candidate_id\":null\x7d\x7d").toUTF8.toList

def requestDoc (providerId modelVersion : String) : Json :=
  .obj (envelope { question with providerId := providerId, modelVersion := modelVersion } ++
    [("budget_ms", .int 1000), ("payload", question.payload.document)])

def replyDoc (providerId modelVersion : String) : Json :=
  .obj (envelope { question with providerId := providerId, modelVersion := modelVersion } ++
    [("status", Json.str "ok"), ("result", .obj [("text", .str "Hello"), ("candidate_id", .null)])])

/-- JSON, of these documents. -/
def json : Codec where
  loads b :=
    if b = requestText "host-llm" "m1" then some (requestDoc "host-llm" "m1")
    else if b = requestText "vm-llm" "m2" then some (requestDoc "vm-llm" "m2")
    else if b = replyText "host-llm" "m1" then some (replyDoc "host-llm" "m1")
    else if b = replyText "vm-llm" "m2" then some (replyDoc "vm-llm" "m2")
    else none
  dumps j :=
    if j = requestDoc "host-llm" "m1" then requestText "host-llm" "m1"
    else if j = requestDoc "vm-llm" "m2" then requestText "vm-llm" "m2"
    else []
  b64decode _ := none
  b64encode _ := ""

def noDigest (_ : Manifest) : String := ""

/-- The client, and its machine. -/
def client : Sys noDigest := fresh noDigest hostRoute (some vmRoute) 1

/-- The call is accepted, and its job begun. -/
def begun : List (Input Answer Method) :=
  [.invoke (.start (some question)), .reply (.time 0), .reply (.text "peer-1"), .reply (.time 0),
    .reply (.job 1), .reply (.time 0)]

/-- The call is canceled. -/
def canceled : List (Input Answer Method) := [.invoke .cancel, .reply (.truth true), .reply (.time 0)]

/-- The job answers, and the terminal is delivered. -/
def answered : List (Input Answer Method) :=
  [.invoke .poll, .reply (.time 0),
    .reply (.reply ⟨some 200, some (replyText "host-llm" "m1"), some "peer-1"⟩), .reply (.time 0),
    .reply (.truth true), .reply (.time 0)]

/-- The clock fails, then raises what is no `Exception`; later the call is polled. -/
def faulted : List (Input Answer Method) :=
  [.invoke (.start (some question)), .reply (.time (-1)), .reply (.raised .interrupt), .invoke .poll,
    .reply (.time 0), .reply (.time 0), .reply (.time 0), .reply (.time 0)]

/-- The bytes of a text, as they evaluate by structure. -/
def data (s : String) : Bytes := s.toUTF8.data.toList

def requestLine (providerId modelVersion : String) : String :=
  envelopeText providerId modelVersion ++ "\"budget_ms\":1000,\"payload\":" ++
    "\x7b\"text\":\"Hi\",\"context\":\"\",\"candidates\":[]\x7d\x7d"

def replyLine (providerId modelVersion : String) : String :=
  envelopeText providerId modelVersion ++ "\"status\":\"ok\",\"result\":" ++
    "\x7b\"text\":\"Hello\",\"candidate_id\":null\x7d\x7d"

/-- JSON, where texts have these bytes. -/
def reads (bytes : String → Bytes) : Codec where
  loads b :=
    if b = bytes (requestLine "host-llm" "m1") then some (requestDoc "host-llm" "m1")
    else if b = bytes (requestLine "vm-llm" "m2") then some (requestDoc "vm-llm" "m2")
    else if b = bytes (replyLine "host-llm" "m1") then some (replyDoc "host-llm" "m1")
    else if b = bytes (replyLine "vm-llm" "m2") then some (replyDoc "vm-llm" "m2")
    else none
  dumps j :=
    if j = requestDoc "host-llm" "m1" then bytes (requestLine "host-llm" "m1")
    else if j = requestDoc "vm-llm" "m2" then bytes (requestLine "vm-llm" "m2")
    else []
  b64decode _ := none
  b64encode _ := ""

/-- The job answers, with a text of these bytes. -/
def answers (bytes : String → Bytes) : List (Input Answer Method) :=
  [.invoke .poll, .reply (.time 0),
    .reply (.reply ⟨some 200, some (bytes (replyLine "host-llm" "m1")), some "peer-1"⟩), .reply (.time 0),
    .reply (.truth true), .reply (.time 0)]

theorem utf8_data : (fun s : String => s.toUTF8.toList) = data := funext fun _ => Sequence.toList_data _

theorem json_data : json = reads data := by
  rw [← utf8_data]
  rfl

theorem answered_data : answered = answers data := by
  rw [← utf8_data]
  rfl

end Example

/-- **Each accepted call stores one terminal, and the next poll delivers it**, in every run. -/
theorem call_lifecycle {cfg : GConfig digest}
    (h : (gateway codec digest).Reachable (fresh digest host localRoute version) cfg) :
    Lifecycle cfg.w ∧ ∀ t, cfg.w.st.client.terminal = some t →
      cfg.w.st.client.insideCallback = false → cfg.w.st.client.configuring = false →
      (gateway codec digest).step cfg (.invoke .poll) =
        some ⟨((cfg.w.enter .poll).put cfg.w.st.deliver).push cfg.w.next (.ret (.ok (.terminal (some t)))),
          cfg.stack⟩ := by
  have hlife := (reachable_path fresh_fresh h).lifecycle fresh_fresh
  exact ⟨hlife, fun t ht hin hconf => poll_delivers hlife.life ht hin hconf⟩

theorem call_lifecycle_canceled :
    ∃ cfg : GConfig Example.noDigest, ∃ t,
      (gateway Example.json Example.noDigest).Reachable Example.client cfg ∧ Lifecycle cfg.w ∧
        (gateway Example.json Example.noDigest).step cfg (.invoke .poll) =
          some ⟨((cfg.w.enter .poll).put cfg.w.st.deliver).push cfg.w.next
            (.ret (.ok (.terminal (some t)))), cfg.stack⟩ := by
  obtain ⟨cfg, hcfg, ht⟩ := Machine.Reachable.of_run (gateway Example.json Example.noDigest) Example.client
    (Example.begun ++ Example.canceled) (fun c => c.w.st.client.terminal.isSome &&
      !c.w.st.client.insideCallback && !c.w.st.client.configuring) (by rw [Example.json_data]; decide +kernel)
  rw [Bool.and_eq_true, Bool.and_eq_true] at ht
  obtain ⟨⟨hterm, hin⟩, hconf⟩ := ht
  obtain ⟨t, hterm⟩ := Option.isSome_iff_exists.1 hterm
  have hlife := call_lifecycle hcfg
  exact ⟨cfg, t, hcfg, hlife.1, hlife.2 t hterm (by simpa using hin) (by simpa using hconf)⟩

/-! ## Cleanup -/

/-- **Cleaned up**: whatever a `begin` answered was a remote error, or a job whose `cancel`
returned exactly `True` afterwards. -/
def CleanedUp (log : List (GEntry digest)) : Prop :=
  ∀ newer (e : GEntry digest) older op x, log = newer ++ e :: older → e.act = .reply op x → op.begins.isSome →
    (∃ code, x = .remote code) ∨
      ∃ j, x = .job j ∧ ∃ e' ∈ newer, e'.act = .reply (.cancel j) (.truth true)

/-- A debt stays until its job is canceled. -/
theorem debts_stay {d : Option ℕ} {newer log : List (GEntry digest)} (h : d ∈ debts log)
    (hnone : ∀ e ∈ newer, ∀ j, e.act = .reply (.cancel j) (.truth true) → d ≠ some j) :
    d ∈ debts (newer ++ log) := by
  induction newer with
  | nil => exact h
  | cons e newer ih =>
    have ih := ih fun e' he' => hnone e' (List.mem_cons_of_mem _ he')
    obtain ⟨i, x, s⟩ := e
    rw [List.cons_append]
    cases x with
    | reply op a =>
      by_cases hb : op.begins.isSome
      · rw [debts_begin _ i a s hb]
        cases a with
        | remote code => exact ih
        | _ => exact List.mem_cons_of_mem _ ih
      · by_cases hc : ∃ j, op = .cancel j
        · obtain ⟨j, rfl⟩ := hc
          rw [debts_cancel]
          split
          · rename_i ha
            refine List.mem_filter.2 ⟨ih, ?_⟩
            have hne := hnone ⟨i, .reply (.cancel j) a, s⟩ List.mem_cons_self j (by rw [ha])
            simpa using hne
          · exact ih
        · rw [debts_other _ i s]
          · exact ih
          · intro op' a' heq
            cases heq
            cases op <;> first | rfl | exact absurd ⟨_, rfl⟩ hc | exact absurd rfl hb
    | _ =>
      rw [debts_other _ i s fun op a heq => by cases heq]
      exact ih

theorem cleanedUp_of_debts {log : List (GEntry digest)} (h : debts log = []) : CleanedUp log := by
  intro newer e older op x hlog hact hop
  obtain ⟨i, y, s⟩ := e
  cases hact
  by_contra hcontra
  rw [not_or] at hcontra
  obtain ⟨hremote, hjob⟩ := hcontra
  have hd : x.toJob ∈ debts (⟨i, .reply op x, s⟩ :: older) := by
    rw [debts_begin older i x s hop]
    cases x with
    | remote code => exact absurd ⟨code, rfl⟩ hremote
    | _ => exact List.mem_cons_self
  have hstay : x.toJob ∈ debts (newer ++ ⟨i, .reply op x, s⟩ :: older) := by
    refine debts_stay hd fun e he j hcancel heq => hjob ⟨j, ?_, e, he, hcancel⟩
    cases x with
    | job k =>
      cases heq
      rfl
    | _ => cases heq
  rw [← hlog, h] at hstay
  cases hstay

/-- A fault recorded earlier is recorded still, and where an attempt was begun after it a
callback had raised what is no `Exception`. -/
theorem Path.begun_after (h : Path codec s₀ w) {newer older newer' older' : List (GEntry digest)}
    {e m : GEntry digest} {op : Op} (hlog : w.log = newer' ++ m :: older') (hact : m.act = .call op)
    (hop : op.begins.isSome) (hold : older' = newer ++ e :: older) (hfault : e.st.client.fault ≠ none) :
    Disturbed older' := by
  obtain ⟨a, c, hpa, hla, hst, hadm, hl⟩ := h.launched hlog hact hop
  have hmem : e ∈ a.log := by
    rw [hla, hold]
    simp
  have hlatched := (hpa.latched e hmem hfault).1
  rw [hst] at hlatched
  rcases launches_begins hl with ⟨k, hk, -⟩ | ⟨l, hl, -⟩
  · exact absurd (hadm.host k hk).1 hlatched
  · rcases (hadm.vm l hl).1 with hnone | hd
    · exact absurd hnone hlatched
    · exact hd

/-- **The cleanup latch of the gateway.** Where no call is active and cleanup is proven,
everything that was begun is cleaned up, and no failure with code `cleanup` was accepted. Once
a fault is recorded no call is accepted; and no attempt is begun, if no callback raised what is
no `Exception`. The local route is begun where all that was begun before is cleaned up. -/
theorem cleanup_latch {cfg : GConfig digest}
    (h : (gateway codec digest).Reachable (fresh digest host localRoute version) cfg) :
    (cfg.w.st.client.active = none → cfg.w.st.client.unclean = false →
      CleanedUp cfg.w.log ∧ ∀ id f, .finishing id (.failure f) ∈ cfg.w.st.trail → f.code ≠ .cleanup) ∧
    (∀ newer e older, cfg.w.log = newer ++ e :: older → e.st.client.fault ≠ none →
      cfg.w.st.client.fault ≠ none ∧ accepted cfg.w.st.trail = accepted e.st.trail ∧
        (¬ Disturbed cfg.w.log → ∀ m ∈ newer, ∀ op, m.act = .call op → op.begins = none)) ∧
    (∀ newer e older op, cfg.w.log = newer ++ e :: older → e.act = .call op → op.begins = some false →
      CleanedUp older) := by
  have hpath := reachable_path fresh_fresh h
  refine ⟨fun _ hu => ?_, fun newer e older hlog hfault => ?_, fun newer e older op hlog hact hop => ?_⟩
  · obtain ⟨hdebts, hdirty⟩ := (hpath.books fresh_fresh).clean hu
    exact ⟨cleanedUp_of_debts hdebts, fun id f hm hcode => hdirty ⟨id, f, hm, hcode⟩⟩
  · have hmem : e ∈ cfg.w.log := by
      rw [hlog]
      simp
    obtain ⟨hnow, hhist⟩ := hpath.latched e hmem hfault
    refine ⟨hnow, ?_, fun hcalm m hm op hact => ?_⟩
    · obtain ⟨a, a', -, hpa', -, -, hst, -⟩ := hpath.entry hlog
      have hthen := (hpa'.lives fresh_fresh).life.accepted
      rw [hst] at hthen
      rw [(hpath.lives fresh_fresh).life.accepted, hhist, hthen]
    · by_contra hne
      obtain ⟨l₁, l₂, hsplit⟩ := List.append_of_mem hm
      have hlog' : cfg.w.log = l₁ ++ m :: (l₂ ++ e :: older) := by
        rw [hlog, hsplit]
        simp
      obtain ⟨x, hx, hraised⟩ := hpath.begun_after hlog' hact (Option.isSome_iff_ne_none.2 hne) rfl hfault
      refine hcalm ⟨x, ?_, hraised⟩
      rw [hlog']
      exact List.mem_append_right _ (List.mem_cons_of_mem _ hx)
  · obtain ⟨a, c, -, -, -, hadm, -⟩ := hpath.launched hlog hact (by rw [hop]; rfl)
    exact cleanedUp_of_debts hadm.owed

theorem cleanup_latch_answered :
    ∃ cfg : GConfig Example.noDigest,
      (gateway Example.json Example.noDigest).Reachable Example.client cfg ∧
        (returned cfg.w.log).length = 1 ∧ CleanedUp cfg.w.log := by
  obtain ⟨cfg, hcfg, ht⟩ := Machine.Reachable.of_run (gateway Example.json Example.noDigest) Example.client
    (Example.begun ++ Example.answered) (fun c => c.w.st.client.active.isNone &&
      !c.w.st.client.unclean && decide ((returned c.w.log).length = 1))
    (by rw [Example.json_data, Example.answered_data]; decide +kernel)
  rw [Bool.and_eq_true, Bool.and_eq_true, decide_eq_true_eq] at ht
  obtain ⟨⟨hactive, hclean⟩, hreturned⟩ := ht
  exact ⟨cfg, hcfg, hreturned,
    ((cleanup_latch hcfg).1 (Option.isNone_iff_eq_none.1 hactive) (by simpa using hclean)).1⟩

/-- The last callback begins the local route, after an entry with a recorded fault. -/
def beginsFaulted (c : GConfig Example.noDigest) : Bool :=
  match c.w.log with
  | [] => false
  | e :: older => (match e.act with
      | .call op => op.begins == some false
      | _ => false) && older.any fun m => m.st.client.fault == some .clock

theorem beginsFaulted_entry {c : GConfig Example.noDigest} (h : beginsFaulted c = true) :
    ∃ e older op m, c.w.log = e :: older ∧ e.act = .call op ∧ op.begins = some false ∧ m ∈ older ∧
      m.st.client.fault = some .clock := by
  unfold beginsFaulted at h
  split at h
  · cases h
  rename_i e older hlog
  rw [Bool.and_eq_true, List.any_eq_true] at h
  obtain ⟨hact, m, hm, hfault⟩ := h
  split at hact
  · rename_i op hop
    exact ⟨e, older, op, m, hlog, hop, by simpa using hact, hm, by simpa using hfault⟩
  · cases hact

/-- **An attempt is begun after a recorded fault**: the clock fails, the next look at it raises
what no handler catches, and the call stays active. The next poll finds no job, takes that for
a failure of the provider, and falls back. -/
theorem begins_after_fault :
    ∃ cfg : GConfig Example.noDigest,
      (gateway Example.json Example.noDigest).Reachable Example.client cfg ∧
        ∃ e older op m, cfg.w.log = e :: older ∧ e.act = .call op ∧ op.begins = some false ∧
          m ∈ older ∧ m.st.client.fault = some .clock := by
  obtain ⟨cfg, hcfg, ht⟩ := Machine.Reachable.of_run (gateway Example.json Example.noDigest) Example.client
    Example.faulted beginsFaulted (by rw [Example.json_data]; decide +kernel)
  exact ⟨cfg, hcfg, beginsFaulted_entry ht⟩

/-! ## Disclosure and binding -/

/-- **What a host attempt was begun on**, in activation `e.frame`: its peer is the configured
one, its provider was checked, the clock did not fail, the permit allowed it, and nobody asked
for its end. -/
structure Disclosed (codec : Codec) (e : GEntry digest) (older : List (GEntry digest))
    (transport : ℕ) (outgoing : Outgoing) (c : Call) : Prop where
  active : e.st.client.active = some c
  host : c.route = .host e.st.client.host
  handed : transport = e.st.client.host.transport ∧ outgoing.endpoint = e.st.client.host.endpoint ∧
    outgoing.authorization = "Bearer " ++ e.st.client.host.bearer ∧
    requestBytes codec (some c.request) = .ok outgoing.body
  peer : ∃ m ∈ older, m.frame = e.frame ∧ m.act = .reply (.peer e.st.client.host.transport)
    (.text e.st.client.host.endpoint.peerIdentity)
  provider : checkProvider c.request e.st.client.host.provider e.st.client.catalogVersion = .ok ()
  clock : Timely e.frame c older ∧ e.st.client.fault = none
  permit : Permits e.frame c e.st older
  unasked : Unasked e.frame older ∧ e.st.client.disabled = false ∧ c.cancelRequested = false

/-- **What a local attempt was begun on**: a failure of the host route, while the call was not
canceled, its deadline not passed, and no fault recorded, in any state that the log shows. -/
structure Fallback (e : GEntry digest) (older : List (GEntry digest)) (c : Call) (f : Failure) : Prop where
  active : e.st.client.active = some c
  failed : FellBack c e.st f
  uncanceled : ∀ m ∈ older, ∀ c', m.st.client.active = some c' →
    c'.request.requestId = c.request.requestId → c'.cancelRequested = false
  inTime : ∀ m ∈ older, ∀ c', m.st.client.active = some c' → c'.request.requestId = c.request.requestId →
    ∀ t ∈ c'.lastTime, ∀ d ∈ c'.deadline, t < d
  unfaulted : ¬ Disturbed older → ∀ m ∈ older, m.st.client.fault = none

/-- **What a success was made from**: the answer of a job that was begun for the same request on
the same route, with the envelope of that request. -/
structure Answered (codec : Codec) (e : GEntry digest) (older : List (GEntry digest)) (c : Call)
    (incoming : Answer) (v : Success) : Prop where
  active : e.st.client.active = some c
  job : ∃ j, e.act = .reply (.poll j) incoming ∧ c.job = some j
  begun : ∃ m ∈ older, ∃ op, m.act = .call op ∧ Launches codec c op ∧
    ∃ c', m.st.client.active = some c' ∧ c'.request = c.request ∧ c'.route = c.route
  envelope : ∃ raw body, codec.loads raw = some (.obj body) ∧ matchesEnvelope c.request body = true ∧
    match c.route with
    | .host k => k = e.st.client.host ∧ incoming =
        .reply ⟨some 200, some raw, some k.endpoint.peerIdentity⟩
    | .vm l => e.st.client.localRoute = some l ∧ incoming = .bytes raw
  output : received codec c incoming = .output v.output
  provider : v.providerId = c.route.provider.providerId ∧ v.modelVersion = c.route.provider.modelVersion

/-- What is parsed as an output has the envelope of the request. -/
theorem parsed_output {c : Call} {raw : Option Bytes} {o : Output}
    (h : (match parseResponse codec raw c.request with
      | .ok (.output o) => Value.output o
      | .ok (.error code) => .failure (c.failure code)
      | .error code => .failure (c.failure code)) = .output o) :
    ∃ r body, raw = some r ∧ codec.loads r = some (.obj body) ∧ matchesEnvelope c.request body = true := by
  cases hp : parseResponse codec raw c.request with
  | error code =>
    rw [hp] at h
    cases h
  | ok r => exact parseResponse_envelope hp

/-- What a reply that gives an output is. -/
theorem received_output {c : Call} {incoming : Answer} {o : Output}
    (h : received codec c incoming = .output o) :
    ∃ raw body, codec.loads raw = some (.obj body) ∧ matchesEnvelope c.request body = true ∧
      match c.route with
      | .host k => incoming = .reply ⟨some 200, some raw, some k.endpoint.peerIdentity⟩
      | .vm _ => incoming = .bytes raw := by
  unfold received at h
  cases hroute : c.route with
  | vm l =>
    rw [hroute] at h
    obtain ⟨r, body, hr, hl, hm⟩ := parsed_output h
    refine ⟨r, body, hl, hm, ?_⟩
    cases incoming with
    | bytes b => exact congrArg Answer.bytes (Option.some_inj.1 hr)
    | _ => cases hr
  | host k =>
    rw [hroute] at h
    cases incoming with
    | reply r =>
      dsimp only at h
      split at h
      · cases h
      split at h
      · cases h
      rename_i hpeer
      split at h
      · cases h
      split at h
      · cases h
      split at h
      · cases h
      split at h
      · cases h
      rename_i hstatus
      obtain ⟨raw, body, hr, hl, hm⟩ := parsed_output h
      obtain ⟨status, b, peer⟩ := r
      cases hr
      refine ⟨raw, body, hl, hm, ?_⟩
      have hpeer' : peer = some k.endpoint.peerIdentity := not_not.1 hpeer
      have hstatus' : status = some 200 := not_not.1 hstatus
      dsimp only
      rw [hpeer', hstatus']
    | _ => cases h

theorem Path.disclosed (h₀ : Fresh s₀) (h : Path codec s₀ w) {newer older : List (GEntry digest)}
    {e : GEntry digest} {transport : ℕ} {outgoing : Outgoing} (hlog : w.log = newer ++ e :: older)
    (hact : e.act = .call (.hostBegin transport outgoing)) :
    ∃ c, Disclosed codec e older transport outgoing c := by
  obtain ⟨a, c, hpa, hla, hst, hadm, hl⟩ := h.launched hlog hact rfl
  cases hroute : c.route with
  | vm l =>
    unfold Launches at hl
    rw [hroute] at hl
    cases hl
  | host k =>
    have hrouted := (hpa.routed h₀).host c k (by rw [hst]; exact hadm.active) hroute
    rw [hst] at hrouted
    obtain ⟨hfault, htimely, hunasked, -, hpeer⟩ := hadm.host k hroute
    unfold Launches at hl
    rw [hroute] at hl
    obtain ⟨body, hbody, hop⟩ := hl
    cases hop
    subst hrouted
    refine ⟨c, hadm.active, hroute, ⟨rfl, rfl, rfl, hbody⟩, hpeer, ?_, ⟨htimely, hfault⟩, hadm.permit,
      hunasked, hadm.enabled, hadm.wanted⟩
    have hcheck := hadm.provider
    rw [hroute] at hcheck
    exact hcheck

theorem Path.fallback (h₀ : Fresh s₀) (h : Path codec s₀ w) {newer older : List (GEntry digest)}
    {e : GEntry digest} {f : ℕ} {request : Request} {budget : ℤ} (hlog : w.log = newer ++ e :: older)
    (hact : e.act = .call (.localBegin f request budget)) : ∃ c failure, Fallback e older c failure := by
  obtain ⟨a, c, hpa, hla, hst, hadm, hl⟩ := h.launched hlog hact rfl
  cases hroute : c.route with
  | host k =>
    unfold Launches at hl
    rw [hroute] at hl
    obtain ⟨body, -, hop⟩ := hl
    cases hop
  | vm l =>
    have hactive : a.st.client.active = some c := by rw [hst]; exact hadm.active
    obtain ⟨-, failure, hfailed⟩ := (hpa.routed h₀).vm c l hactive hroute
    rw [hst] at hfailed
    obtain ⟨t, d, ht, hd, hlt⟩ := hadm.time
    have hage : ∀ m ∈ older, ∀ c', m.st.client.active = some c' →
        c'.request.requestId = c.request.requestId → Earlier c' c := by
      intro m hm c' hc' hid
      exact (hpa.aging h₀ m (by rw [hla]; exact hm) c' hc').2 c hactive hid.symm
    refine ⟨c, failure, hadm.active, hfailed, fun m hm c' hc' hid => ?_, fun m hm c' hc' hid u hu d' hd' => ?_,
      fun hcalm m hm => ?_⟩
    · by_contra hne
      rw [Bool.not_eq_false] at hne
      have := (hage m hm c' hc' hid).canceled hne
      rw [hadm.wanted] at this
      cases this
    · obtain ⟨u', hu', hle⟩ := (hage m hm c' hc' hid).time u hu
      have hdead := (hage m hm c' hc' hid).deadline d' hd'
      rw [hd] at hdead
      cases hdead
      rw [ht] at hu'
      cases hu'
      omega
    · by_contra hne
      have hlatched := (hpa.latched m (by rw [hla]; exact hm) hne).1
      rw [hst] at hlatched
      rcases (hadm.vm l hroute).1 with hnone | hd
      · exact hlatched hnone
      · exact hcalm hd

theorem Path.answered (h₀ : Fresh s₀) (h : Path codec s₀ w) {newer older : List (GEntry digest)}
    {e : GEntry digest} {t : Terminal} {v : Success} (hlog : w.log = newer ++ e :: older)
    (hact : e.act = .ret (.ok (.terminal (some t)))) (hv : t.succeeded = some v) :
    ∃ newer' m older' c incoming, older = newer' ++ m :: older' ∧ Answered codec m older' c incoming v := by
  obtain ⟨a, a', hpa, -, hla, -, -, hpush⟩ := h.entry hlog
  have hstored : ∃ id, .stored id t ∈ a.st.trail := by
    have hterm : a.st.client.terminal = some t := by
      cases hpush with
      | ret i r hr _ => exact absurd (Act.ret.inj hact) (hr _)
      | deliver i _ _ _ => exact Return.terminal.inj (Except.ok.inj (Act.ret.inj hact))
      | operate i m s r rest _ _ hop =>
        cases hact
        cases hop
      | _ => cases hact
    obtain ⟨l, hl, hlt⟩ := (hpa.lives h₀).life.waiting
    rw [hterm] at hlt
    have hmem : t ∈ l.map Prod.snd := by
      rw [hlt]
      exact List.mem_cons_self
    obtain ⟨⟨id, t'⟩, hx, rfl⟩ := List.mem_map.1 hmem
    have hin : (id, t') ∈ stored a.st.trail := by
      rw [hl]
      exact List.mem_append_left _ hx
    obtain ⟨mark, hmark, heq⟩ := List.mem_filterMap.1 hin
    cases mark with
    | stored id' t'' =>
      cases heq
      exact ⟨_, hmark⟩
    | _ => cases heq
  obtain ⟨id, hstored⟩ := hstored
  obtain ⟨c, -, hparsed⟩ := hpa.proven h₀ id t v hstored hv
  obtain ⟨m, hm, j, incoming, c', hreply, hactive, hreq, hroute, hjob, hrec, hp, hver⟩ := hparsed
  rw [hla] at hm
  obtain ⟨newer', older', rfl⟩ := List.append_of_mem hm
  have hlog' : a.log = newer' ++ m :: older' := hla
  obtain ⟨b, hpb, hlb, hstb⟩ := hpa.replied hlog' hreply
  have hactive' : b.st.client.active = some c' := by rw [hstb]; exact hactive
  have howned := hpb.owned h₀ c' j hactive' hjob
  rw [hlb] at howned
  have hrouted := hpb.routed h₀
  rw [hstb] at hrouted
  obtain ⟨raw, body, hl, hmatch, hshape⟩ := received_output hrec
  refine ⟨newer', m, older', c', incoming, rfl, hactive, ⟨j, hreply, hjob⟩, howned, ⟨raw, body, hl, hmatch, ?_⟩,
    hrec, ?_, ?_⟩
  · cases hr : c'.route with
    | host k =>
      rw [hr] at hshape
      exact ⟨hrouted.host c' k hactive hr, hshape⟩
    | vm l =>
      rw [hr] at hshape
      exact ⟨(hrouted.vm c' l hactive hr).1, hshape⟩
  · rw [hroute]
    exact hp
  · rw [hroute]
    exact hver

/-- **Disclosure and binding**, in every run: what each attempt was begun on, and what each
success that a poll returned was made from. -/
theorem disclosure {cfg : GConfig digest}
    (h : (gateway codec digest).Reachable (fresh digest host localRoute version) cfg) :
    (∀ newer e older transport outgoing, cfg.w.log = newer ++ e :: older →
      e.act = .call (.hostBegin transport outgoing) → ∃ c, Disclosed codec e older transport outgoing c) ∧
    (∀ newer e older f request budget, cfg.w.log = newer ++ e :: older →
      e.act = .call (.localBegin f request budget) → ∃ c failure, Fallback e older c failure) ∧
    (∀ newer e older t v, cfg.w.log = newer ++ e :: older → e.act = .ret (.ok (.terminal (some t))) →
      t.succeeded = some v → ∃ newer' m older' c incoming, older = newer' ++ m :: older' ∧
        Answered codec m older' c incoming v) := by
  have hpath := reachable_path fresh_fresh h
  exact ⟨fun _ _ _ _ _ hlog hact => hpath.disclosed fresh_fresh hlog hact,
    fun _ _ _ _ _ _ hlog hact => hpath.fallback fresh_fresh hlog hact,
    fun _ _ _ _ _ hlog hact hv => hpath.answered fresh_fresh hlog hact hv⟩

/-- The last call delivered a success. -/
def delivers (c : GConfig digest) : Bool :=
  match c.w.log with
  | ⟨_, .ret (.ok (.terminal (some t))), _⟩ :: _ => t.succeeded.isSome
  | _ => false

theorem disclosure_answered :
    ∃ (cfg : GConfig Example.noDigest) (e : GEntry Example.noDigest) (older : List (GEntry Example.noDigest))
      (t : Terminal) (v : Success),
      (gateway Example.json Example.noDigest).Reachable Example.client cfg ∧ cfg.w.log = e :: older ∧
        e.act = .ret (.ok (.terminal (some t))) ∧ t.succeeded = some v ∧
        ∃ newer' m older' c incoming, older = newer' ++ m :: older' ∧
          Answered Example.json m older' c incoming v := by
  obtain ⟨cfg, hcfg, ht⟩ := Machine.Reachable.of_run (gateway Example.json Example.noDigest) Example.client
    (Example.begun ++ Example.answered) delivers
    (by rw [Example.json_data, Example.answered_data]; decide +kernel)
  unfold delivers at ht
  split at ht
  · rename_i i t s older hlog
    obtain ⟨v, hv⟩ := Option.isSome_iff_exists.1 ht
    exact ⟨cfg, _, older, t, v, hcfg, hlog, rfl, hv, (disclosure hcfg).2.2 [] _ older t v hlog rfl hv⟩
  · cases ht

/-- The last callback begins the local route, after an entry with a recorded fault of the same call. -/
def fallsFaulted (c : GConfig digest) : Bool :=
  match c.w.log with
  | e :: older => (match e.act with
    | .call op => op.begins == some false
    | _ => false) && older.any fun m => m.st.client.fault == some .clock && activeId m.st == activeId e.st
  | [] => false

/-- **A local attempt is begun where a fault was recorded** while the same call was active. -/
theorem falls_back_after_fault :
    ∃ cfg : GConfig Example.noDigest,
      (gateway Example.json Example.noDigest).Reachable Example.client cfg ∧
        ∃ e older op m, cfg.w.log = e :: older ∧ e.act = .call op ∧ op.begins = some false ∧
          m ∈ older ∧ m.st.client.fault = some .clock ∧ activeId m.st = activeId e.st := by
  obtain ⟨cfg, hcfg, ht⟩ := Machine.Reachable.of_run (gateway Example.json Example.noDigest) Example.client
    Example.faulted fallsFaulted (by rw [Example.json_data]; decide +kernel)
  unfold fallsFaulted at ht
  split at ht
  · rename_i e older hlog
    rw [Bool.and_eq_true, List.any_eq_true] at ht
    obtain ⟨hact, m, hm, hfault⟩ := ht
    rw [Bool.and_eq_true] at hfault
    split at hact
    · rename_i op hop
      exact ⟨cfg, hcfg, e, older, op, m, hlog, hop, by simpa using hact, hm, by simpa using hfault.1,
        by simpa using hfault.2⟩
    · cases hact
  · cases ht

end Gateway

end Arhugula
