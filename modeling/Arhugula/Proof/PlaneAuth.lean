import Arhugula.Proof.PlaneOnce

/-!
# Authorization: what a run of the planes may contain

`Entry.Lawful` says of each log entry, given the entries before it, what the control
plane owes its owner: an executor is called only with a command that the present
policy and catalog allow (`Authorized`), a token authorizes one execution
(`SingleUse`), a catalog is never replaced while a plane authorizes (`Replaced`), its
versions rise (`Rising`), and a returned result tells what happened (`Honest`).

The contract of this module carries these through nested calls. Its invariant ties
the token tables, the count of catalog users and the catalog versions to the log.
-/

namespace Arhugula

namespace Plane

open Reentrant Vm

/-! ## What the log says -/

/-- The entry is a call of an executor. -/
def PEntry.executes (e : PEntry) : Bool :=
  match e.act with
  | .call (.execute ..) => true
  | _ => false

theorem PEntry.executes_iff {e : PEntry} :
    e.executes = true ↔ ∃ p c, e.act = .call (.execute p c) := by
  unfold PEntry.executes
  constructor
  · intro h
    split at h
    · rename_i p c hact
      exact ⟨p, c, hact⟩
    · cases h
  · rintro ⟨p, c, hact⟩
    rw [hact]

/-- How many times activation `i` called an executor. -/
def runs (log : List PEntry) (i : ℕ) : ℕ := log.countP fun e => e.frame = i && PEntry.executes e

/-- The methods that hold the catalog of plane `p` while they run. -/
def Method.authorizes (p : ℕ) : Method → Bool
  | .dispatch q .. | .requestConfirmation q .. | .confirm q .. => q = p
  | _ => false

/-- The activations that hold the catalog of plane `p`: called, and not yet returned. -/
def openOn (p : ℕ) : List PEntry → List ℕ
  | [] => []
  | e :: log =>
    match e.act with
    | .invoke m => if m.authorizes p then e.frame :: openOn p log else openOn p log
    | .ret _ => (openOn p log).filter fun i => i ≠ e.frame
    | _ => openOn p log

/-- The entry is a `confirm` that finds the token in the table of its plane. -/
def Consumes (token : String) (e : PEntry) : Prop :=
  ∃ p channel key approved guard v,
    e.act = .invoke (.confirm p (some token) channel key approved guard) ∧
      (e.st.planes p).confirmations.get token = some v

/-- `uuid4` gave the token. -/
def Given (log : List PEntry) (token : String) : Prop :=
  ∃ e ∈ log, e.act = .reply .uuid4 (.text token)

/-- `request_confirmation` returned the preview, for this very command and context key,
while the plane had the given catalog. -/
def Issued (log : List PEntry) (p : ℕ) (preview : Confirmation) (key : String)
    (catalog : List Capability) (version : ℤ) : Prop :=
  ∃ b ∈ log, b.act = .ret (.ok (.confirmation preview)) ∧
    (∃ a ∈ log, a.frame = b.frame ∧
      a.act = .invoke (.requestConfirmation p preview.command (some key))) ∧
    (b.st.planes p).catalog = catalog ∧ (b.st.planes p).catalogVersion = version

/-- The first time that activation `i` read the clock, the preview had not expired. -/
def Checked (log : List PEntry) (i p : ℕ) (preview : Confirmation) : Prop :=
  ∃ newer, ∃ b : PEntry, ∃ older : List PEntry, log = newer ++ b :: older ∧ b.frame = i ∧
    (∃ t, b.act = .reply (.clock p) (.time t) ∧ t < preview.expiresAtMs) ∧
    ∀ a ∈ older, a.frame = i → ∀ x, a.act ≠ .reply (.clock p) x

/-- **An approval of the command**: activation `i` is a `confirm` with approval, by an
allowed channel and with the issuing context key, of a token that was issued for this
very command under the given catalog and that had not expired. -/
def Approval (log : List PEntry) (i p : ℕ) (command : Command) (catalog : List Capability)
    (version : ℤ) (token : String) : Prop :=
  ∃ channel key guard preview, channel ∈ channels ∧ preview.command = command ∧
    preview.token = token ∧
    (∃ a ∈ log, a.frame = i ∧
      a.act = .invoke (.confirm p (some token) channel (some key) (some true) guard) ∧
      (a.st.planes p).confirmations.get token = some (preview, key)) ∧
    Issued log p preview key catalog version ∧ Checked log i p preview

/-! ## What is owed -/

/-- The plane allows the command now, apart from confirmation. -/
structure Ready (s : ControlPlane) (command : Command) : Prop where
  enabled : s.profile.enabled = true ∧ s.policy.enabled = true
  bound : s.profile.policyId = s.policy.policyId ∧ command.context.profileId = s.profile.profileId
  allowed : command.capabilityId ∈ s.policy.allowedCapabilities
  capability : ∃ capability, s.capability command.capabilityId = some capability ∧
    capability.enabled = true ∧ capability.catalogVersion = command.catalogVersion ∧
    capability.risk ≠ .blocked ∧
    (∀ name, (∃ v, (name, v) ∈ command.arguments) ↔ ∃ kind, (name, kind) ∈ capability.arguments) ∧
    ∀ name kind, (name, kind) ∈ capability.arguments →
      ∃ v, command.arguments.get name = some v ∧ kind.admits v = true

/-- The plane wants the command confirmed. -/
def NeedsConfirmation (s : ControlPlane) (command : Command) : Prop :=
  (∃ capability, s.capability command.capabilityId = some capability ∧ capability.risk = .confirm) ∨
    command.capabilityId ∈ s.policy.confirmationRequired

/-- Activation `i` read a history with a preview of the command. -/
def ReadPreview (log : List PEntry) (i : ℕ) (command : Command) : Prop :=
  ∃ b ∈ log, b.frame = i ∧ b.act = .reply .read .done ∧
    previewed b.st.journal command.commandId = true

/-- **An execution is authorized** at its moment, and approved where that is needed. The
token of its approval is gone. -/
def Authorized (e : PEntry) (older : List PEntry) : Prop :=
  ∀ p command, e.act = .call (.execute p command) →
    Ready (e.st.planes p) command ∧
    (NeedsConfirmation (e.st.planes p) command ∨ ReadPreview older e.frame command →
      ∃ token, Approval older e.frame p command (e.st.planes p).catalog
        (e.st.planes p).catalogVersion token ∧
        ∀ q v, (token, v) ∉ (e.st.planes q).confirmations)

/-- **A token authorizes one execution**: no earlier execution belongs to an activation
that consumed the same token. -/
def SingleUse (e : PEntry) (older : List PEntry) : Prop :=
  e.executes = true → ∀ token, (∃ a ∈ older, a.frame = e.frame ∧ Consumes token a) →
    ∀ b ∈ older, b.executes = true → ¬ ∃ a ∈ older, a.frame = b.frame ∧ Consumes token a

/-- A token is consumed once. -/
def FirstUse (e : PEntry) (older : List PEntry) : Prop :=
  ∀ token, Consumes token e → ∀ b ∈ older, ¬ Consumes token b

/-- **A catalog is replaced between authorizations**, and by a version later than all
that the plane has had. -/
def Replaced (e : PEntry) (older : List PEntry) : Prop :=
  ∀ version, e.act = .ret (.ok (.version version)) →
    ∃ b ∈ older, ∃ p catalog expected, b.frame = e.frame ∧
      b.act = .invoke (.replaceCatalog p catalog expected version) ∧
      (∀ a ∈ older, (a.st.planes p).catalogVersion < version) ∧
      (e.st.planes p).catalogVersion = version ∧ openOn p older = []

/-- **The catalog holds still** for every activation that holds it: it is what it was when
the activation was called. -/
def Held (e : PEntry) (older : List PEntry) : Prop :=
  ∀ p, ∀ i ∈ openOn p older, ∀ b ∈ older, b.frame = i → (∃ m, b.act = .invoke m) →
    (e.st.planes p).catalog = (b.st.planes p).catalog ∧
      (e.st.planes p).catalogVersion = (b.st.planes p).catalogVersion

/-- Catalog versions never fall. -/
def Rising (e : PEntry) (older : List PEntry) : Prop :=
  ∀ b ∈ older, ∀ p, (b.st.planes p).catalogVersion ≤ (e.st.planes p).catalogVersion

/-- The entry stores the completion of the result: the journal accepts it. -/
def Completes (r : Result) (e : PEntry) : Prop :=
  ∃ ev, e.act = .reply (.append (.event ev)) .done ∧ ev.commandId = r.commandId ∧
    ev.eventType = .finished ∧ ev.status = some r.status ∧
    (e.st.journal.append (.event ev)).isSome

/-- The journal holds an execution event of the command, of this type and status. -/
def Holding (j : Journal) (commandId : String) (type : EventType) (status : Option Status) : Prop :=
  ∃ ev : Event, .event ev ∈ j ∧ ev.commandId = commandId ∧ ev.eventType = type ∧ ev.status = status

/-- The executor that activation `i` called reported a cancellation. -/
def ReportedCanceled (log : List PEntry) (i : ℕ) : Prop :=
  ∃ b ∈ log, b.frame = i ∧ ∃ p command o,
    b.act = .reply (.execute p command) (.outcome o) ∧ o.status = "canceled"

/-- **A result tells what happened** in activation `i`, which returned it. -/
structure Honest (log : List PEntry) (j : Journal) (i : ℕ) (r : Result) : Prop where
  own : ∃ b ∈ log, b.frame = i ∧ ∃ m p, b.act = .invoke m ∧ target b.st m = some (p, r.commandId)
  success : r.status = .success → runs log i = 1 ∧ Holding j r.commandId .started none ∧
    Holding j r.commandId .finished (some .success)
  ran : runs log i ≠ 0 → (∃ b ∈ log, b.frame = i ∧ Completes r b) ∨ r.status = .uncertain
  blocked : r.status = .blocked → runs log i = 0
  canceled : r.status = .canceled → runs log i = 0 ∨
    ReportedCanceled log i ∧ ∃ b ∈ log, b.frame = i ∧ Completes r b

/-- What is owed of one entry. -/
structure Lawful (e : PEntry) (older : List PEntry) : Prop where
  authorized : Authorized e older
  single : SingleUse e older
  first : FirstUse e older
  replaced : Replaced e older
  held : Held e older
  rising : Rising e older
  honest : ∀ r, e.act = .ret (.ok (.result r)) → Honest older e.st.journal e.frame r

/-! ## The contract -/

/-- The invariant: the log is lawful, and the tables and counts of the planes agree with it. -/
structure AuthInv (w : PWorld) : Prop where
  lawful : Throughout Lawful w.log
  rising : ∀ e ∈ w.log, ∀ p, (e.st.planes p).catalogVersion ≤ (w.st.planes p).catalogVersion
  held : ∀ p, ∀ i ∈ openOn p w.log, ∀ b ∈ w.log, b.frame = i → (∃ m, b.act = .invoke m) →
    (w.st.planes p).catalog = (b.st.planes p).catalog ∧
      (w.st.planes p).catalogVersion = (b.st.planes p).catalogVersion
  tokens : ∀ p token preview key, (token, preview, key) ∈ (w.st.planes p).confirmations →
    preview.token = token ∧ Given w.log token ∧
      Issued w.log p preview key (w.st.planes p).catalog (w.st.planes p).catalogVersion
  apart : ∀ p q token v v', (token, v) ∈ (w.st.planes p).confirmations →
    (token, v') ∈ (w.st.planes q).confirmations → p = q
  spent : ∀ e ∈ w.log, ∀ token, Consumes token e →
    Given w.log token ∧ ∀ p v, (token, v) ∉ (w.st.planes p).confirmations
  users : ∀ p, (w.st.planes p).catalogUsers = (openOn p w.log).length
  nodup : ∀ p, (openOn p w.log).Nodup

/-- What a nested call may do: it leaves the activations that wait as they are, with the
catalogs they hold, and a token that is in no table stays out of all tables. -/
structure AuthRel (ctx : List (ℕ × Op)) (a b : PWorld) : Prop where
  log : a.log <:+ b.log
  trust : ∀ p, (b.st.planes p).policy = (a.st.planes p).policy ∧
    (b.st.planes p).profile = (a.st.planes p).profile
  journal : ∀ r ∈ a.st.journal, r ∈ b.st.journal
  opened : ∀ f ∈ ctx, ∀ p, f.1 ∈ openOn p b.log ↔ f.1 ∈ openOn p a.log
  pinned : ∀ f ∈ ctx, ∀ p, f.1 ∈ openOn p a.log →
    (b.st.planes p).catalog = (a.st.planes p).catalog ∧
      (b.st.planes p).catalogVersion = (a.st.planes p).catalogVersion
  runs : ∀ f ∈ ctx, runs b.log f.1 = runs a.log f.1
  reads : ∀ f ∈ ctx, ∀ e ∈ b.log, e.frame = f.1 → e.act = .reply .read .done → e ∈ a.log
  idle : ∀ token, Given a.log token → (∀ p v, (token, v) ∉ (a.st.planes p).confirmations) →
    (∀ p v, (token, v) ∉ (b.st.planes p).confirmations) ∧
      ∀ e ∈ b.log, Consumes token e → e ∈ a.log

theorem Given.mono {a b : List PEntry} (h : a <:+ b) {token : String} (hg : Given a token) :
    Given b token := by
  obtain ⟨e, he, ha⟩ := hg
  exact ⟨e, h.mem he, ha⟩

theorem Issued.mono {a b : List PEntry} (h : a <:+ b) {p : ℕ} {preview : Confirmation} {key : String}
    {catalog : List Capability} {version : ℤ} (hi : Issued a p preview key catalog version) :
    Issued b p preview key catalog version := by
  obtain ⟨e, he, hret, ⟨e', he', hinv⟩, hterms⟩ := hi
  exact ⟨e, h.mem he, hret, ⟨e', h.mem he', hinv⟩, hterms⟩

theorem Checked.mono {a b : List PEntry} (h : a <:+ b) {i p : ℕ} {preview : Confirmation}
    (hc : Checked a i p preview) : Checked b i p preview := by
  obtain ⟨l, rfl⟩ := h
  obtain ⟨newer, e, older, rfl, hrest⟩ := hc
  exact ⟨l ++ newer, e, older, by rw [List.append_assoc], hrest⟩

theorem Approval.mono {a b : List PEntry} (h : a <:+ b) {i p : ℕ} {command : Command}
    {catalog : List Capability} {version : ℤ} {token : String}
    (ha : Approval a i p command catalog version token) :
    Approval b i p command catalog version token := by
  obtain ⟨channel, key, guard, preview, hc, hp, ht, ⟨e, he, hfacts⟩, hi, hk⟩ := ha
  exact ⟨channel, key, guard, preview, hc, hp, ht, ⟨e, h.mem he, hfacts⟩, hi.mono h, hk.mono h⟩

theorem AuthRel.refl (ctx : List (ℕ × Op)) (w : PWorld) : AuthRel ctx w w where
  log := List.suffix_rfl
  trust _ := ⟨rfl, rfl⟩
  journal _ h := h
  opened _ _ _ := Iff.rfl
  pinned _ _ _ _ := ⟨rfl, rfl⟩
  runs _ _ := rfl
  reads _ _ _ he _ _ := he
  idle _ _ h := ⟨h, fun _ he _ => he⟩

theorem AuthRel.trans {ctx : List (ℕ × Op)} {a b c : PWorld} (h : AuthRel ctx a b)
    (h' : AuthRel ctx b c) : AuthRel ctx a c where
  log := h.log.trans h'.log
  trust p := ⟨(h'.trust p).1.trans (h.trust p).1, (h'.trust p).2.trans (h.trust p).2⟩
  journal r hr := h'.journal r (h.journal r hr)
  opened f hf p := (h'.opened f hf p).trans (h.opened f hf p)
  pinned f hf p ho := by
    have h1 := h.pinned f hf p ho
    have h2 := h'.pinned f hf p ((h.opened f hf p).2 ho)
    exact ⟨h2.1.trans h1.1, h2.2.trans h1.2⟩
  runs f hf := (h'.runs f hf).trans (h.runs f hf)
  reads f hf e he hi ha := h.reads f hf e (h'.reads f hf e he hi ha) hi ha
  idle token hg hn := by
    have h1 := h.idle token hg hn
    have h2 := h'.idle token (hg.mono h.log) h1.1
    exact ⟨h2.1, fun e he hc => h1.2 e (h2.2 e he hc) hc⟩

/-- The contract of the planes, as far as authorization is concerned. -/
def authContract : Contract (machine anyPlane) where
  Inv := AuthInv
  Rel := AuthRel
  refl := AuthRel.refl
  trans := AuthRel.trans

/-! ## Quiet steps -/

theorem not_consumes {e : PEntry} (h : ∀ m, e.act ≠ .invoke m) (token : String) :
    ¬ Consumes token e := by
  rintro ⟨p, channel, key, approved, guard, v, hact, -⟩
  exact h _ hact

theorem runs_push {w : PWorld} {i : ℕ} {x : Act Op Answer Exc Method Value} {j : ℕ}
    (h : j = i → ∀ p c, x ≠ .call (.execute p c)) : runs (w.push i x).log j = runs w.log j := by
  unfold runs
  rw [World.push_log, List.countP_cons_of_neg]
  simp only [PEntry.executes, Bool.and_eq_true, decide_eq_true_eq, not_and, Bool.not_eq_true]
  intro hi
  split
  · exact absurd rfl (h hi.symm _ _)
  · rfl

theorem runs_execute (w : PWorld) (i p : ℕ) (c : Command) :
    runs (w.push i (.call (.execute p c))).log i = runs w.log i + 1 := by
  unfold runs
  rw [World.push_log, List.countP_cons_of_pos]
  simp [PEntry.executes]

/-- A callback or its answer changes nothing that is held. -/
theorem openOn_push {w : PWorld} {i : ℕ} {x : Act Op Answer Exc Method Value}
    (hm : ∀ m, x ≠ .invoke m) (hr : ∀ r, x ≠ .ret r) (p : ℕ) :
    openOn p (w.push i x).log = openOn p w.log := by
  cases x with
  | invoke m => exact absurd rfl (hm m)
  | ret r => exact absurd rfl (hr r)
  | _ => rfl

/-- A quiet act is lawful. -/
theorem lawful_silent {w : PWorld} (h : AuthInv w) {i : ℕ} {x : Act Op Answer Exc Method Value}
    (hm : ∀ m, x ≠ .invoke m) (hr : ∀ r, x ≠ .ret r) (hx : ∀ p c, x ≠ .call (.execute p c)) :
    Lawful ⟨i, x, w.st⟩ w.log where
  authorized p c hact := absurd hact (hx p c)
  single hexec := by
    obtain ⟨p, c, hact⟩ := PEntry.executes_iff.1 hexec
    exact absurd hact (hx p c)
  first token hc := absurd hc (not_consumes hm token)
  replaced version hact := absurd hact (hr _)
  held := h.held
  rising b hb p := h.rising b hb p
  honest r hact := absurd hact (hr _)

theorem AuthInv.push {w : PWorld} (h : AuthInv w) {i : ℕ} {x : Act Op Answer Exc Method Value}
    (hm : ∀ m, x ≠ .invoke m) (hr : ∀ r, x ≠ .ret r) (hlaw : Lawful ⟨i, x, w.st⟩ w.log) :
    AuthInv (w.push i x) := by
  have hsuf : w.log <:+ (w.push i x).log := List.suffix_cons _ _
  refine ⟨⟨hlaw, h.lawful⟩, fun e he p => ?_, fun p j hj b hb hf hcall => ?_,
    fun p token preview key hmem => ?_, h.apart, fun e he token hc => ?_, fun p => ?_, fun p => ?_⟩
  · rcases List.mem_cons.1 he with rfl | he
    · exact Int.le_refl _
    · exact h.rising e he p
  · rw [openOn_push hm hr] at hj
    rcases List.mem_cons.1 hb with rfl | hb
    · obtain ⟨m, hact⟩ := hcall
      exact absurd hact (hm m)
    · exact h.held p j hj b hb hf hcall
  · obtain ⟨ht, hg, hi⟩ := h.tokens p token preview key hmem
    exact ⟨ht, hg.mono hsuf, hi.mono hsuf⟩
  · rcases List.mem_cons.1 he with rfl | he
    · exact absurd hc (not_consumes hm token)
    · obtain ⟨hg, hn⟩ := h.spent e he token hc
      exact ⟨hg.mono hsuf, hn⟩
  · rw [openOn_push hm hr]
    exact h.users p
  · rw [openOn_push hm hr]
    exact h.nodup p

theorem AuthRel.push (ctx : List (ℕ × Op)) (w : PWorld) {i : ℕ}
    {x : Act Op Answer Exc Method Value} (hm : ∀ m, x ≠ .invoke m) (hr : ∀ r, x ≠ .ret r)
    (hx : ∀ f ∈ ctx, f.1 = i → (∀ p c, x ≠ .call (.execute p c)) ∧ x ≠ .reply .read .done) :
    AuthRel ctx w (w.push i x) where
  log := List.suffix_cons _ _
  trust _ := ⟨rfl, rfl⟩
  journal _ h := h
  opened f _ p := by rw [openOn_push hm hr]
  pinned _ _ _ _ := ⟨rfl, rfl⟩
  runs f hf := runs_push fun hi => (hx f hf hi).1
  reads f hf e he hi ha := by
    rcases List.mem_cons.1 he with rfl | he
    · exact absurd ha (hx f hf hi.symm).2
    · exact he
  idle token _ hn := by
    refine ⟨hn, fun e he hc => ?_⟩
    rcases List.mem_cons.1 he with rfl | he
    · exact absurd hc (not_consumes hm token)
    · exact he

/-- The same planes, apart from what they have seen, and no less in the journal. -/
structure Alike (s s' : State) : Prop where
  terms : ∀ p, (s'.planes p).catalog = (s.planes p).catalog ∧
    (s'.planes p).catalogVersion = (s.planes p).catalogVersion
  trust : ∀ p, (s'.planes p).policy = (s.planes p).policy ∧
    (s'.planes p).profile = (s.planes p).profile
  users : ∀ p, (s'.planes p).catalogUsers = (s.planes p).catalogUsers
  tables : ∀ p x, x ∈ (s'.planes p).confirmations → x ∈ (s.planes p).confirmations
  journal : ∀ r ∈ s.journal, r ∈ s'.journal

theorem AuthInv.put {w : PWorld} (h : AuthInv w) {s : State} (hs : Alike w.st s) :
    AuthInv (w.put s) where
  lawful := h.lawful
  rising e he p := by
    rw [World.put_st, (hs.terms p).2]
    exact h.rising e he p
  held p j hj b hb hf hcall := by
    rw [World.put_st, (hs.terms p).1, (hs.terms p).2]
    exact h.held p j hj b hb hf hcall
  tokens p token preview key hmem := by
    rw [World.put_st, (hs.terms p).1, (hs.terms p).2]
    exact h.tokens p token preview key (hs.tables p _ hmem)
  apart p q token v v' hv hv' := h.apart p q token v v' (hs.tables p _ hv) (hs.tables q _ hv')
  spent e he token hc := by
    obtain ⟨hg, hn⟩ := h.spent e he token hc
    exact ⟨hg, fun p v hv => hn p v (hs.tables p _ hv)⟩
  users p := (hs.users p).trans (h.users p)
  nodup := h.nodup

theorem AuthRel.put (ctx : List (ℕ × Op)) (w : PWorld) {s : State} (hs : Alike w.st s) :
    AuthRel ctx w (w.put s) where
  log := List.suffix_rfl
  trust := hs.trust
  journal := hs.journal
  opened _ _ _ := Iff.rfl
  pinned _ _ p _ := hs.terms p
  runs _ _ := rfl
  reads _ _ _ he _ _ := he
  idle _ _ hn := ⟨fun p v hv => hn p v (hs.tables p _ hv), fun _ he _ => he⟩

/-- A change of one plane that touches nothing but what it has seen, and drops tokens. -/
theorem alike_modify (s : State) (q : ℕ) {f : ControlPlane → ControlPlane}
    (hf : ∀ c, (f c).catalog = c.catalog ∧ (f c).catalogVersion = c.catalogVersion ∧
      (f c).policy = c.policy ∧ (f c).profile = c.profile ∧ (f c).catalogUsers = c.catalogUsers)
    (htables : ∀ c, ∀ x ∈ (f c).confirmations, x ∈ c.confirmations) : Alike s (s.modify q f) := by
  have h : ∀ p, (s.modify q f).planes p = s.planes p ∨ (s.modify q f).planes p = f (s.planes p) := by
    intro p
    by_cases hp : p = q
    · subst hp
      exact .inr (State.modify_self s p _)
    · exact .inl (State.modify_other s _ hp)
  refine ⟨fun p => ?_, fun p => ?_, fun p => ?_, fun p x hx => ?_, fun _ hr => hr⟩
  · rcases h p with hp | hp <;> rw [hp]
    · exact ⟨rfl, rfl⟩
    · exact ⟨(hf _).1, (hf _).2.1⟩
  · rcases h p with hp | hp <;> rw [hp]
    · exact ⟨rfl, rfl⟩
    · exact ⟨(hf _).2.2.1, (hf _).2.2.2.1⟩
  · rcases h p with hp | hp <;> rw [hp]
    exact (hf _).2.2.2.2
  · rcases h p with hp | hp <;> rw [hp] at hx
    · exact hx
    · exact htables _ x hx

theorem alike_see (s : State) (q : ℕ) (l : List String) : Alike s (s.modify q (.see l)) :=
  alike_modify s q (fun _ => ⟨rfl, rfl, rfl, rfl, rfl⟩) fun _ _ h => h

theorem alike_expire (s : State) (q : ℕ) (now : ℤ) : Alike s (s.modify q (.expire now)) :=
  alike_modify s q (fun _ => ⟨rfl, rfl, rfl, rfl, rfl⟩) fun _ _ h => (List.mem_filter.1 h).1

theorem alike_journal (s : State) {r : Record} {j : Journal} (h : s.journal.append r = some j) :
    Alike s { s with journal := j } :=
  ⟨fun _ => ⟨rfl, rfl⟩, fun _ => ⟨rfl, rfl⟩, fun _ => rfl, fun _ _ h => h, (Journal.append_mem h).1⟩

theorem authContract_calm : Calm authContract where
  narrow _ _ _ _ h := ⟨h.log, h.trust, h.journal, fun f hf => h.opened f (List.mem_cons_of_mem _ hf),
    fun f hf => h.pinned f (List.mem_cons_of_mem _ hf),
    fun f hf => h.runs f (List.mem_cons_of_mem _ hf),
    fun f hf => h.reads f (List.mem_cons_of_mem _ hf), h.idle⟩
  push ctx w i x hx hw := by
    have hm : ∀ m, x ≠ .invoke m := by rintro m rfl; cases hx
    have hr : ∀ r, x ≠ .ret r := by rintro r rfl; cases hx
    have he : ∀ p c, x ≠ .call (.execute p c) := by rintro p c rfl; cases hx
    have hread : x ≠ .reply .read .done := by rintro rfl; cases hx
    exact ⟨AuthInv.push hw hm hr (lawful_silent hw hm hr he),
      AuthRel.push ctx w hm hr fun _ _ _ => ⟨he, hread⟩⟩
  seen ctx w q l hw :=
    ⟨AuthInv.put hw (alike_see w.st q l), AuthRel.put ctx w (alike_see w.st q l)⟩
  journal ctx w _ _ hw hj :=
    ⟨AuthInv.put hw (alike_journal w.st hj), AuthRel.put ctx w (alike_journal w.st hj)⟩

end Plane

end Arhugula
