import Arhugula.Proof.GatewayMethods

/-!
# What a log of the gateway tells

Each entry of the log of a path was made by one step, from a world on the path whose log is
the older part (`Path.entry`). With it, and with what every path keeps of the active call
(`Aging`, `Routed`, `Owned`) and of the stored terminals (`Proven`), a log entry can be read:
what was known when it was made, and what had happened before.
-/

namespace Arhugula

namespace Gateway

open Reentrant Providers

variable {digest : Manifest → String} {codec : Codec} {s₀ : Sys digest} {w w' a a' : GWorld digest}
  {e : GEntry digest} {older : List (GEntry digest)}

/-! ## Entries -/

/-- What a step logs. -/
inductive Pushed (codec : Codec) (a : GWorld digest) : GEntry digest → Prop
  | enter (m) : Pushed codec a ⟨a.next, .invoke m, a.st⟩
  | ret (i r) (hr : ∀ t, r ≠ .ok (.terminal t))
      (h : ∀ e ∈ a.log, e.frame = i → ∀ m, e.act = .invoke m → Ends m e.st a.st r) :
      Pushed codec a ⟨i, .ret r, a.st⟩
  | refuse (i) (h : a.st.client.insideCallback = true ∨ a.st.client.configuring = true)
      (hp : Polls i a.log) : Pushed codec a ⟨i, .ret (.ok (.terminal none)), a.st⟩
  | deliver (i) (hi : a.st.client.insideCallback = false) (hc : a.st.client.configuring = false)
      (hp : Polls i a.log) :
      Pushed codec a ⟨i, .ret (.ok (.terminal a.st.client.terminal)), a.st.deliver⟩
  | operate (i m s r rest) (hm : m.operates = true) (hlog : a.log = ⟨i, .invoke m, a.st⟩ :: rest)
      (h : Operates m a.st s r) : Pushed codec a ⟨i, .ret r, s⟩
  | ask (i op) (h : op.quiet = true) : Pushed codec a ⟨i, .call op, a.st⟩
  | answer (i op x) (h : op.quiet = true) : Pushed codec a ⟨i, .reply op x, a.st⟩
  | launch (i c op) (h : Admitted i c a.st a.log) (hop : Launches codec c op) :
      Pushed codec a ⟨i, .call op, a.st⟩
  | began (i op x) (hop : op.begins.isSome) : Pushed codec a ⟨i, .reply op x, a.st⟩
  | cancel (i j) : Pushed codec a ⟨i, .call (.cancel j), a.st⟩
  | canceled (i j x) : Pushed codec a ⟨i, .reply (.cancel j) x, a.st⟩

/-- A step logs nothing, or one entry. -/
theorem Step.log (hs : Step codec a a') :
    a'.log = a.log ∨ ∃ e, a'.log = e :: a.log ∧ Pushed codec a e ∧ a'.st = e.st := by
  cases hs with
  | enter m => exact .inr ⟨_, rfl, .enter m, rfl⟩
  | ret i r hr h => exact .inr ⟨_, rfl, .ret i r hr h, rfl⟩
  | refuse i h hp => exact .inr ⟨_, rfl, .refuse i h hp, rfl⟩
  | deliver i hi hc _ hp => exact .inr ⟨_, rfl, .deliver i hi hc hp, rfl⟩
  | operate i m s r rest hm hlog h => exact .inr ⟨_, rfl, .operate i m s r rest hm hlog h, rfl⟩
  | ask i op h => exact .inr ⟨_, rfl, .ask i op h, rfl⟩
  | answer i op x h => exact .inr ⟨_, rfl, .answer i op x h, rfl⟩
  | launch i c op h hop => exact .inr ⟨_, rfl, .launch i c op h hop, rfl⟩
  | began i c op x hop _ _ _ _ => exact .inr ⟨_, rfl, .began i op x hop, rfl⟩
  | cancel i c j _ _ _ => exact .inr ⟨_, rfl, .cancel i j, rfl⟩
  | canceled i c j x _ _ _ => exact .inr ⟨_, rfl, .canceled i j x, rfl⟩
  | _ => exact .inl rfl

/-- **Every entry was logged by a step**, from a world on the path. -/
theorem Path.entry (h : Path codec s₀ w) {newer : List (GEntry digest)}
    (hlog : w.log = newer ++ e :: older) :
    ∃ a a', Path codec s₀ a ∧ Path codec s₀ a' ∧ a.log = older ∧ a'.log = e :: older ∧ a'.st = e.st ∧
      Pushed codec a e := by
  induction h generalizing newer with
  | start => simp at hlog
  | step hp hs ih =>
    rcases hs.log with heq | ⟨x, heq, hpush, hst⟩
    · exact ih (heq.symm.trans hlog)
    · rw [heq] at hlog
      cases newer with
      | nil =>
        obtain ⟨rfl, rfl⟩ := List.cons.inj hlog
        exact ⟨_, _, hp, hp.step hs, rfl, heq, hst, hpush⟩
      | cons y newer => exact ih (List.cons.inj hlog).2

/-- A call of a method takes the next number. -/
theorem Step.next (hs : Step codec a a') : a.next ≤ a'.next ∧
    ∀ e m, a'.log = e :: a.log → e.act = .invoke m → e.frame = a.next ∧ a.next < a'.next := by
  cases hs with
  | enter m =>
    refine ⟨Nat.le_succ _, fun e m' hl hact => ?_⟩
    obtain ⟨rfl, -⟩ := List.cons.inj hl
    exact ⟨rfl, Nat.lt_succ_self _⟩
  | _ =>
    refine ⟨le_rfl, fun e m hl hact => ?_⟩
    first
      | (obtain ⟨rfl, -⟩ := List.cons.inj hl; cases hact)
      | exact absurd hl.symm (List.cons_ne_self _ _)

/-- **Each activation is one call.** -/
def Singular (w : GWorld digest) : Prop :=
  (∀ e ∈ w.log, ∀ m, e.act = .invoke m → e.frame < w.next) ∧
    ∀ e ∈ w.log, ∀ e' ∈ w.log, e.frame = e'.frame → ∀ m m', e.act = .invoke m → e'.act = .invoke m' → e = e'

theorem Path.singular (h : Path codec s₀ w) : Singular w := by
  refine h.induction (P := Singular) ⟨fun e he => (by cases he), fun e he => (by cases he)⟩ ?_
  intro w w' _ hw hs
  obtain ⟨hless, hone⟩ := hw
  obtain ⟨hle, hnew⟩ := hs.next
  rcases hs.log with heq | ⟨x, heq, -, -⟩
  · refine ⟨fun e he m hm => ?_, fun e he e' he' => ?_⟩
    · have := hless e (heq ▸ he) m hm
      omega
    · exact hone e (heq ▸ he) e' (heq ▸ he')
  · have hx := fun m => hnew x m heq
    rw [Singular, heq]
    refine ⟨fun e he m hm => ?_, fun e he e' he' hf m m' hm hm' => ?_⟩
    · rcases List.mem_cons.1 he with rfl | he
      · have := hx m hm
        omega
      · have := hless e he m hm
        omega
    · rcases List.mem_cons.1 he with rfl | hold <;> rcases List.mem_cons.1 he' with rfl | hold'
      · rfl
      · have := hx m hm
        have := hless e' hold' m' hm'
        omega
      · have := hx m' hm'
        have := hless e hold m hm
        omega
      · exact hone e hold e' hold' hf m m' hm hm'

/-- **Where an attempt was begun.** -/
theorem Path.launched (h : Path codec s₀ w) {newer : List (GEntry digest)} {op : Op}
    (hlog : w.log = newer ++ e :: older) (hact : e.act = .call op) (hop : op.begins.isSome) :
    ∃ a c, Path codec s₀ a ∧ a.log = older ∧ a.st = e.st ∧ Admitted e.frame c e.st older ∧
      Launches codec c op := by
  obtain ⟨a, a', hpa, -, hla, -, -, hpush⟩ := h.entry hlog
  cases hpush with
  | ask i op' hq =>
    cases hact
    rw [Op.quiet_begins hq] at hop
    cases hop
  | launch i c op' hadm hl =>
    cases hact
    rw [← hla]
    exact ⟨a, c, hpa, rfl, rfl, hadm, hl⟩
  | cancel i j =>
    cases hact
    cases hop
  | _ => cases hact

/-- A reply was logged in the state in which it was given. -/
theorem Path.replied (h : Path codec s₀ w) {newer : List (GEntry digest)} {op : Op} {x : Answer}
    (hlog : w.log = newer ++ e :: older) (hact : e.act = .reply op x) :
    ∃ a, Path codec s₀ a ∧ a.log = older ∧ a.st = e.st := by
  obtain ⟨a, a', hpa, -, hla, -, -, hpush⟩ := h.entry hlog
  cases hpush with
  | answer i op' x' _ => exact ⟨a, hpa, hla, rfl⟩
  | began i op' x' _ => exact ⟨a, hpa, hla, rfl⟩
  | canceled i j x' => exact ⟨a, hpa, hla, rfl⟩
  | _ => cases hact

/-! ## The active call, then and now -/

/-- The call `c'` is what `c` was before: a wish to cancel stays, time does not go back, and
the deadline stays. -/
structure Earlier (c c' : Call) : Prop where
  canceled : c.cancelRequested = true → c'.cancelRequested = true
  time : ∀ t ∈ c.lastTime, ∃ t' ∈ c'.lastTime, t ≤ t'
  deadline : ∀ d ∈ c.deadline, c'.deadline = some d

theorem Earlier.refl (c : Call) : Earlier c c :=
  ⟨fun h => h, fun t ht => ⟨t, ht, by omega⟩, fun _ h => h⟩

theorem Earlier.trans {a b c : Call} (h : Earlier a b) (h' : Earlier b c) : Earlier a c := by
  refine ⟨fun hc => h'.canceled (h.canceled hc), fun t ht => ?_, fun d hd => h'.deadline d (h.deadline d hd)⟩
  obtain ⟨t', ht', hle⟩ := h.time t ht
  obtain ⟨t'', ht'', hle'⟩ := h'.time t' ht'
  exact ⟨t'', ht'', by omega⟩

/-- **A call only gets older**: wherever the log shows the active call, it was earlier there. -/
def Aging (w : GWorld digest) : Prop :=
  ∀ e ∈ w.log, ∀ c, e.st.client.active = some c → c.request.requestId ∈ w.st.client.history ∧
    ∀ c', w.st.client.active = some c' → c'.request.requestId = c.request.requestId → Earlier c c'

/-- The active call is new, or was active before and got older. -/
theorem Aging.put (h : Aging w) {s : Sys digest}
    (hh : ∀ id ∈ w.st.client.history, id ∈ s.client.history)
    (ha : ∀ c', s.client.active = some c' → c'.request.requestId ∉ w.st.client.history ∨
      ∃ c, w.st.client.active = some c ∧ c'.request.requestId = c.request.requestId ∧ Earlier c c') :
    Aging (w.put s) := by
  intro e he c hc
  obtain ⟨hmem, hold⟩ := h e he c hc
  refine ⟨hh _ hmem, fun c' hc' hid => ?_⟩
  rcases ha c' hc' with hnew | ⟨c₁, hc₁, hid₁, hearlier⟩
  · rw [hid] at hnew
    exact absurd hmem hnew
  · exact (hold c₁ hc₁ (hid₁.symm.trans hid)).trans hearlier

theorem Aging.change (h : Aging w) {f : Call → Call} (hf : ∀ c, w.st.client.active = some c →
    (f c).request.requestId = c.request.requestId ∧ Earlier c (f c)) :
    Aging (w.put (w.st.onClient (.change f))) := by
  refine h.put (fun _ hid => hid) fun c' hc' => .inr ?_
  obtain ⟨c, hc, rfl⟩ := Option.map_eq_some_iff.1 hc'
  exact ⟨c, hc, hf c hc⟩

theorem Aging.push (h : Aging w) (hl : Lives w) (i : ℕ) (x : Act Op Answer Exc Method Return) :
    Aging (w.push i x) := by
  intro e he c hc
  rcases List.mem_cons.1 he with rfl | he
  · refine ⟨?_, fun c' hc' _ => ?_⟩
    · show c.request.requestId ∈ w.st.client.history
      have hactive : w.st.client.active = some c := hc
      rw [hl.life.stored, activeId, hactive]
      exact List.mem_cons_self
    · obtain rfl : c = c' := Option.some_inj.1 (hc.symm.trans hc')
      exact .refl c
  · exact h e he c hc

theorem aging_step (hl : Lives w) (hs : Step codec w w') (h : Aging w) : Aging w' := by
  have hsame : ∀ {s : Sys digest}, s.client.history = w.st.client.history →
      s.client.active = w.st.client.active → Aging (w.put s) := by
    intro s hh ha
    exact h.put (fun _ hid => hh ▸ hid) fun c hc => .inr ⟨c, ha ▸ hc, rfl, .refl c⟩
  have hflag : ∀ d x, Aging (w.put (w.st.onClient (.flag d x))) := by
    intro d x
    refine h.put (fun _ hid => hid) fun c' hc' => .inr ?_
    obtain ⟨c, hc, rfl⟩ := Option.map_eq_some_iff.1 hc'
    refine ⟨c, hc, rfl, ⟨fun hcancel => ?_, fun t ht => ⟨t, ht, by omega⟩, fun _ hd => hd⟩⟩
    show (c.cancelRequested || x) = true
    rw [hcancel]
    rfl
  cases hs with
  | enter m => exact h.push hl w.next (.invoke m)
  | ret i r _ _ => exact h.push hl i _
  | refuse i _ _ => exact h.push hl i _
  | deliver i _ _ hact _ =>
    have hput : Aging (w.put w.st.deliver) := by
      unfold Sys.deliver
      split <;> exact hsame rfl rfl
    have hlput : Lives (w.put w.st.deliver) ∨ w.st.client.active = none := by
      by_cases ht : w.st.client.terminal.isSome
      · exact .inr (hact ht)
      · left
        have hnone : w.st.client.terminal = none := by simpa using ht
        have hst : w.st.deliver = w.st := by
          unfold Sys.deliver
          rw [hnone]
        rw [hst]
        exact hl
    rcases hlput with hlput | hnone
    · exact hput.push hlput i _
    · intro e he c hc
      have hactive : w.st.deliver.client.active = none := by
        unfold Sys.deliver
        split <;> exact hnone
      rcases List.mem_cons.1 he with rfl | he
      · have hcontra : w.st.deliver.client.active = some c := hc
        rw [hactive] at hcontra
        cases hcontra
      · exact hput e he c hc
  | operate i m s r rest _ _ hop =>
    have hput : Aging (w.put s) := by
      cases hop <;> exact h
    have hlput : Lives (w.put s) := by
      cases hop <;> first | exact hl | exact hl.same (.rfl' rfl rfl rfl rfl)
    exact hput.push hlput i _
  | ask i op _ => exact h.push hl i _
  | answer i op x _ => exact h.push hl i _
  | launch i c op _ _ => exact h.push hl i _
  | began i c op x _ _ _ _ _ => exact h.push hl i _
  | cancel i c j _ _ _ => exact h.push hl i _
  | canceled i c j x _ _ _ => exact h.push hl i _
  | inside b => exact hsame rfl rfl
  | configuring b => exact hsame rfl rfl
  | flag d x => exact hflag d x
  | accept r hidle hd hr =>
    refine h.put (fun _ hid => List.mem_cons_of_mem _ hid) fun c hc => .inl ?_
    cases hc
    exact hr
  | tick c now hc h0 hlast =>
    refine h.change fun c' hc' => ?_
    obtain rfl : c = c' := Option.some_inj.1 (hc.symm.trans hc')
    refine ⟨rfl, fun hcancel => hcancel, fun t ht => ⟨now, rfl, hlast t ht⟩, fun d hd => ?_⟩
    have hdead : c.deadline = some d := hd
    show some (c.deadline.getD _) = some d
    rw [hdead]
    rfl
  | latch code => exact hsame rfl rfl
  | route c hc _ =>
    refine h.change fun c' hc' => ?_
    obtain rfl : c = c' := Option.some_inj.1 (hc.symm.trans hc')
    exact ⟨rfl, fun hcancel => hcancel, fun t ht => ⟨t, ht, by omega⟩, fun _ hd => hd⟩
  | soil c _ => exact hsame rfl rfl
  | absolve c _ _ _ _ => exact hsame rfl rfl
  | adopt i c op x s rest _ _ _ _ _ _ _ _ _ =>
    exact h.change fun c _ => ⟨rfl, fun hcancel => hcancel, fun t ht => ⟨t, ht, by omega⟩, fun _ hd => hd⟩
  | finishing c v _ =>
    have hput := h.change (f := fun c => { c with job := none }) fun c _ =>
      ⟨rfl, fun hcancel => hcancel, fun t ht => ⟨t, ht, by omega⟩, fun _ hd => hd⟩
    exact fun e he c hc => hput e he c hc
  | fallBack c k l f _ =>
    exact h.change fun c _ => ⟨rfl, fun hcancel => hcancel, fun t ht => ⟨t, ht, by omega⟩, fun _ hd => hd⟩
  | store c t _ => exact h.put (fun _ hid => hid) fun c hc => by cases hc
  | claim _ _ => exact hsame rfl rfl
  | rebind host localRoute f _ _ => exact hsame rfl rfl
  | time c now _ => exact hsame rfl rfl
  | disable i c s rest _ _ _ _ _ => exact fun e he c hc => hflag true false e he c hc

/-! ## The route of the active call -/

/-- The failure of the host route after which `c` fell back. -/
def FellBack (c : Call) (s : Sys digest) (f : Failure) : Prop :=
  c.primary = some f ∧ fallsBack f.code = true ∧ f.providerId = s.client.host.provider.providerId ∧
    f.modelVersion = s.client.host.provider.modelVersion ∧
    .finishing c.request.requestId (.failure f) ∈ s.trail

/-- **The route of the active call** is the client's, and a call on the local route fell back. -/
structure Routed (s : Sys digest) : Prop where
  host : ∀ c k, s.client.active = some c → c.route = .host k → k = s.client.host
  vm : ∀ c l, s.client.active = some c → c.route = .vm l →
    s.client.localRoute = some l ∧ ∃ f, FellBack c s f

theorem Routed.same {s s' : Sys digest} (h : Routed s) (hh : s'.client.host = s.client.host)
    (hl : s'.client.localRoute = s.client.localRoute) (ht : ∀ m ∈ s.trail, m ∈ s'.trail)
    (ha : ∀ c', s'.client.active = some c' → ∃ c, s.client.active = some c ∧ c'.route = c.route ∧
      c'.primary = c.primary ∧ c'.request.requestId = c.request.requestId) : Routed s' := by
  refine ⟨fun c' k hc' hk => ?_, fun c' l hc' hl' => ?_⟩
  · obtain ⟨c, hc, hr, -⟩ := ha c' hc'
    rw [hh]
    exact h.host c k hc (hr ▸ hk)
  · obtain ⟨c, hc, hr, hp, hid⟩ := ha c' hc'
    obtain ⟨hlocal, f, hf, hcode, hpid, hver, hm⟩ := h.vm c l hc (hr ▸ hl')
    refine ⟨hl.trans hlocal, f, hp.trans hf, hcode, ?_, ?_, ?_⟩
    · rw [hh]
      exact hpid
    · rw [hh]
      exact hver
    · rw [hid]
      exact ht _ hm

theorem Routed.change {s : Sys digest} (h : Routed s) {f : Call → Call}
    (hf : ∀ c, s.client.active = some c → (f c).route = c.route ∧ (f c).primary = c.primary ∧
      (f c).request.requestId = c.request.requestId) : Routed (s.onClient (.change f)) := by
  refine h.same rfl rfl (fun _ hm => hm) fun c' hc' => ?_
  obtain ⟨c, hc, rfl⟩ := Option.map_eq_some_iff.1 hc'
  exact ⟨c, hc, hf c hc⟩

theorem Routed.idle {s : Sys digest} (h : s.client.active = none) : Routed s := by
  refine ⟨fun c k hc => ?_, fun c l hc => ?_⟩
  · rw [h] at hc
    cases hc
  · rw [h] at hc
    cases hc

theorem routed_step (hs : Step codec w w') (h : Routed w.st) : Routed w'.st := by
  have hsame : ∀ {s : Sys digest}, s.client.host = w.st.client.host →
      s.client.localRoute = w.st.client.localRoute → s.client.active = w.st.client.active →
      s.trail = w.st.trail → Routed s := by
    intro s hh hl ha ht
    exact h.same hh hl (fun m hm => ht ▸ hm) fun c hc => ⟨c, ha ▸ hc, rfl, rfl, rfl⟩
  cases hs with
  | deliver i _ _ _ _ =>
    show Routed w.st.deliver
    unfold Sys.deliver
    split
    · exact h
    · exact h.same rfl rfl (fun m hm => List.mem_cons_of_mem _ hm) fun c hc => ⟨c, hc, rfl, rfl, rfl⟩
  | flag d x =>
    have hput := h.change (f := fun c => { c with cancelRequested := c.cancelRequested || x })
      fun c _ => ⟨rfl, rfl, rfl⟩
    exact ⟨hput.host, hput.vm⟩
  | accept r hidle hd hr =>
    refine ⟨fun c k hc hk => ?_, fun c l hc hl => ?_⟩
    · cases hc
      cases hk
      rfl
    · cases hc
      cases hl
  | tick c now _ _ _ => exact h.change fun c _ => ⟨rfl, rfl, rfl⟩
  | route c hc _ =>
    refine h.change fun c' hc' => ?_
    obtain rfl : c = c' := Option.some_inj.1 (hc.symm.trans hc')
    exact ⟨rfl, rfl, rfl⟩
  | adopt i c op x s rest _ _ _ _ _ _ _ _ _ => exact h.change fun c _ => ⟨rfl, rfl, rfl⟩
  | finishing c v hc =>
    refine h.same rfl rfl (fun m hm => List.mem_cons_of_mem _ hm) fun c' hc' => ?_
    obtain ⟨c, hc, rfl⟩ := Option.map_eq_some_iff.1 hc'
    exact ⟨c, hc, rfl, rfl, rfl⟩
  | fallBack c k l f hf =>
    refine ⟨fun c' k' hc' hk' => ?_, fun c' l' hc' hl' => ?_⟩
    · obtain ⟨c, -, rfl⟩ := Option.map_eq_some_iff.1 hc'
      cases hk'
    · obtain ⟨c₁, hc₁, rfl⟩ := Option.map_eq_some_iff.1 hc'
      obtain rfl : c = c₁ := Option.some_inj.1 (hf.active.symm.trans hc₁)
      cases hl'
      have hhost := h.host c k hf.active hf.route
      have hprov : f.providerId = k.provider.providerId ∧ f.modelVersion = k.provider.modelVersion := by
        rw [hf.made]
        unfold Call.failure
        rw [hf.route]
        exact ⟨rfl, rfl⟩
      rw [hhost] at hprov
      exact ⟨hf.fallback, f, rfl, hf.code, hprov.1, hprov.2, hf.marked⟩
  | store c t _ => exact .idle rfl
  | rebind host localRoute f hidle _ => exact .idle hidle.active
  | operate i m s r rest _ _ hop =>
    cases hop with
    | activate hidle => exact .idle hidle.active
    | configure hidle => exact .idle hidle.active
    | _ => exact hsame rfl rfl rfl rfl
  | disable i c s rest _ _ _ _ _ =>
    have hput := h.change (f := fun c => { c with cancelRequested := c.cancelRequested || false })
      fun c _ => ⟨rfl, rfl, rfl⟩
    exact ⟨hput.host, hput.vm⟩
  | _ => exact hsame rfl rfl rfl rfl

/-! ## The job of the active call, and the stored successes -/

/-- **A job was begun** for the request of the call that owns it, on its route. -/
def Owned (w : GWorld digest) (codec : Codec) : Prop :=
  ∀ c j, w.st.client.active = some c → c.job = some j → ∃ e ∈ w.log, ∃ op, e.act = .call op ∧
    Launches codec c op ∧ ∃ c', e.st.client.active = some c' ∧ c'.request = c.request ∧ c'.route = c.route

theorem launches_same {c c' : Call} {op : Op} (hr : c'.request = c.request) (ho : c'.route = c.route)
    (h : Launches codec c op) : Launches codec c' op := by
  unfold Launches at h ⊢
  rw [hr, ho]
  exact h

theorem Owned.later (h : Owned w codec) (hl : ∀ e ∈ w.log, e ∈ w'.log)
    (ha : ∀ c' j, w'.st.client.active = some c' → c'.job = some j → ∃ c, w.st.client.active = some c ∧
      c.job = some j ∧ c'.request = c.request ∧ c'.route = c.route) : Owned w' codec := by
  intro c' j hc' hj
  obtain ⟨c, hc, hj₀, hr, ho⟩ := ha c' j hc' hj
  obtain ⟨e, he, op, hact, hop, c₀, hc₀, hr₀, ho₀⟩ := h c j hc hj₀
  exact ⟨e, hl e he, op, hact, launches_same hr ho hop, c₀, hc₀, hr₀.trans hr.symm, ho₀.trans ho.symm⟩

theorem owned_step (hs : Step codec w w') (h : Owned w codec) : Owned w' codec := by
  have hsame : ∀ {w'' : GWorld digest}, (∀ e ∈ w.log, e ∈ w''.log) →
      w''.st.client.active = w.st.client.active → Owned w'' codec := by
    intro w'' hl ha
    exact h.later hl fun c j hc hj => ⟨c, ha ▸ hc, hj, rfl, rfl⟩
  have hcons : ∀ (x : GEntry digest), ∀ e ∈ w.log, e ∈ x :: w.log := fun x e he => List.mem_cons_of_mem x he
  have hchange : ∀ {f : Call → Call} {w'' : GWorld digest}, w''.log = w.log →
      w''.st.client.active = w.st.client.active.map f → (∀ c, w.st.client.active = some c → (f c).job = none ∨
        ((f c).job = c.job ∧ (f c).request = c.request ∧ (f c).route = c.route)) → Owned w'' codec := by
    intro f w'' hl ha hf
    refine h.later (fun e he => hl ▸ he) fun c' j hc' hj => ?_
    rw [ha] at hc'
    obtain ⟨c, hc, rfl⟩ := Option.map_eq_some_iff.1 hc'
    rcases hf c hc with hnone | ⟨hjob, hr, ho⟩
    · rw [hnone] at hj
      cases hj
    · exact ⟨c, hc, hjob ▸ hj, hr, ho⟩
  cases hs with
  | enter m => exact hsame (hcons _) rfl
  | ret i r _ _ => exact hsame (hcons _) rfl
  | refuse i _ _ => exact hsame (hcons _) rfl
  | deliver i _ _ _ _ =>
    refine hsame (hcons _) ?_
    show w.st.deliver.client.active = _
    unfold Sys.deliver
    split <;> rfl
  | operate i m s r rest _ _ hop =>
    refine hsame (hcons _) ?_
    cases hop <;> rfl
  | ask i op _ => exact hsame (hcons _) rfl
  | answer i op x _ => exact hsame (hcons _) rfl
  | launch i c op _ _ => exact hsame (hcons _) rfl
  | began i c op x _ _ _ _ _ => exact hsame (hcons _) rfl
  | cancel i c j _ _ _ => exact hsame (hcons _) rfl
  | canceled i c j x _ _ _ => exact hsame (hcons _) rfl
  | flag d x => exact hchange rfl rfl fun c _ => .inr ⟨rfl, rfl, rfl⟩
  | disable i c s rest _ _ _ _ _ => exact hchange rfl rfl fun c _ => .inr ⟨rfl, rfl, rfl⟩
  | accept r _ _ _ =>
    intro c j hc hj
    cases hc
    cases hj
  | tick c now _ _ _ => exact hchange rfl rfl fun c _ => .inr ⟨rfl, rfl, rfl⟩
  | route c hc hj =>
    refine hchange rfl rfl fun c' hc' => .inl ?_
    obtain rfl : c = c' := Option.some_inj.1 (hc.symm.trans hc')
    exact hj
  | adopt i c op x s rest hc _ hlog _ _ _ _ _ hl =>
    intro c' j hc' hj
    obtain ⟨c₁, hc₁, rfl⟩ := Option.map_eq_some_iff.1 hc'
    obtain rfl : c = c₁ := Option.some_inj.1 (hc.symm.trans hc₁)
    obtain ⟨e, he, op', hact, hop', c₀, hc₀, hr, ho⟩ := hl
    refine ⟨e, ?_, op', hact, launches_same rfl rfl hop', c₀, hc₀, hr, ho⟩
    rw [World.put_log, hlog]
    exact List.mem_cons_of_mem _ he
  | finishing c v _ => exact hchange (f := fun c => { c with job := none }) rfl rfl fun c _ => .inl rfl
  | fallBack c k l f hf =>
    refine hchange rfl rfl fun c' hc' => .inl ?_
    obtain rfl : c = c' := Option.some_inj.1 (hf.active.symm.trans hc')
    exact hf.idle
  | store c t _ =>
    intro c' j hc'
    cases hc'
  | _ => exact hsame (fun e he => he) rfl

/-- **Every success was parsed** from what the job of its call answered. -/
def Proven (w : GWorld digest) (codec : Codec) : Prop :=
  ∀ id t v, .stored id t ∈ w.st.trail → t.succeeded = some v →
    ∃ c : Call, c.request.requestId = id ∧ Parsed codec c w.log v

theorem parsed_later {c : Call} {log log' : List (GEntry digest)} {v : Success}
    (h : Parsed codec c log v) (hl : ∀ e ∈ log, e ∈ log') : Parsed codec c log' v :=
  h.mono hl rfl rfl

theorem Proven.later (h : Proven w codec) (hl : ∀ e ∈ w.log, e ∈ w'.log)
    (ht : ∀ id t, .stored id t ∈ w'.st.trail → .stored id t ∈ w.st.trail) : Proven w' codec := by
  intro id t v hm hv
  obtain ⟨c, hid, hp⟩ := h id t v (ht id t hm) hv
  exact ⟨c, hid, parsed_later hp hl⟩

theorem proven_step (hs : Step codec w w') (h : Proven w codec) : Proven w' codec := by
  have hcons : ∀ (x : GEntry digest), ∀ e ∈ w.log, e ∈ x :: w.log := fun x e he => List.mem_cons_of_mem x he
  cases hs with
  | enter m => exact h.later (hcons _) fun _ _ hm => hm
  | ret i r _ _ => exact h.later (hcons _) fun _ _ hm => hm
  | refuse i _ _ => exact h.later (hcons _) fun _ _ hm => hm
  | deliver i _ _ _ _ =>
    refine h.later (hcons _) fun id t hm => ?_
    have hm' : .stored id t ∈ w.st.deliver.trail := hm
    unfold Sys.deliver at hm'
    split at hm'
    · exact hm'
    · simpa [Sys.mark, Sys.onClient] using hm'
  | operate i m s r rest _ _ hop =>
    refine h.later (hcons _) fun id t hm => ?_
    cases hop <;> exact hm
  | ask i op _ => exact h.later (hcons _) fun _ _ hm => hm
  | answer i op x _ => exact h.later (hcons _) fun _ _ hm => hm
  | launch i c op _ _ => exact h.later (hcons _) fun _ _ hm => hm
  | began i c op x _ _ _ _ _ => exact h.later (hcons _) fun _ _ hm => hm
  | cancel i c j _ _ _ => exact h.later (hcons _) fun _ _ hm => hm
  | canceled i c j x _ _ _ => exact h.later (hcons _) fun _ _ hm => hm
  | accept r _ _ _ =>
    refine h.later (fun e he => he) fun id t hm => ?_
    simpa [Sys.mark, Sys.onClient] using hm
  | finishing c v _ =>
    refine h.later (fun e he => he) fun id t hm => ?_
    simpa [Sys.mark, Sys.onClient] using hm
  | store c t hst =>
    intro id t' v hm hv
    rcases List.mem_cons.1 hm with heq | hm
    · cases heq
      exact ⟨c, rfl, hst.parsed v hv⟩
    · exact h id t' v hm hv
  | _ => exact h.later (fun e he => he) fun _ _ hm => hm

/-! ## On every path -/

section Paths

variable (h₀ : Fresh s₀) (h : Path codec s₀ w)

theorem Path.latched (h : Path codec s₀ w) : Latched w :=
  h.induction (fun e he => by cases he) fun _ _ _ h hs => latched_step hs h

include h₀ h in
theorem Path.aging : Aging w := by
  have hstart : Path codec s₀ ⟨s₀, [], 0⟩ := .start
  refine (h.induction (P := fun w => Lives w ∧ Aging w) ⟨hstart.lives h₀, fun e he => by cases he⟩ ?_).2
  exact fun _ _ _ h hs => ⟨lives_step hs h.1, aging_step h.1 hs h.2⟩

include h₀ h in
theorem Path.routed : Routed w.st := by
  obtain ⟨host, localRoute, version, rfl⟩ := h₀
  exact h.induction (P := fun w => Routed w.st) (.idle rfl) fun _ _ _ h hs => routed_step hs h

include h₀ h in
theorem Path.owned : Owned w codec := by
  obtain ⟨host, localRoute, version, rfl⟩ := h₀
  exact h.induction (P := fun w => Owned w codec) (fun c j hc => by cases hc)
    fun _ _ _ h hs => owned_step hs h

include h₀ h in
theorem Path.proven : Proven w codec := by
  obtain ⟨host, localRoute, version, rfl⟩ := h₀
  exact h.induction (P := fun w => Proven w codec) (fun id t v hm => by cases hm)
    fun _ _ _ h hs => proven_step hs h

end Paths

end Gateway

end Arhugula
