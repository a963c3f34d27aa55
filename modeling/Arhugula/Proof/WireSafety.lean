import Mathlib.Algebra.Ring.Nat
import Mathlib.Algebra.BigOperators.Group.List.Basic
import Mathlib.Data.List.Nodup
import Arhugula.Sequence.Traverse
import Arhugula.Spec.Wire

/-!
# Requests on the wire

A request that was parsed is written again: its document has the members that were read, in the order of the schema, so
that it is spelt as short as any text of it (`compact`), and what is written is parsed as the same request
(`request_canonical`).
-/

namespace Arhugula

namespace Gateway

variable {codec : Codec} {v w doc : Json} {m : Mapping Json} {keys : List String}

/-! ## The shortest text -/

/-- The least bytes that spell a character in a string: an escape where it has to be escaped. -/
def spelt (c : Char) : ℕ :=
  if ['"', '\\', '\n', '\r', '\t', '\x08', '\x0c'].contains c then 2 else if c.val < 32 then 6 else c.utf8Size

/-- The bytes of a string. -/
def quoted (s : String) : ℕ := 2 + (s.toList.map spelt).sum

mutual

/-- **The least bytes that spell a document.** -/
def compact : Json → ℕ
  | .null => 4
  | .bool b => if b then 4 else 5
  | .int i => (toString i).length
  | .float _ => 1
  | .str s => quoted s
  | .arr items => 1 + max 1 (compactItems items)
  | .obj members => 1 + max 1 (compactMembers members)

def compactItems : List Json → ℕ
  | [] => 0
  | x :: xs => compact x + 1 + compactItems xs

def compactMembers : List (String × Json) → ℕ
  | [] => 0
  | (k, x) :: xs => quoted k + 1 + compact x + 1 + compactMembers xs

end

theorem compactItems_eq (items : List Json) : compactItems items = (items.map fun x => compact x + 1).sum := by
  induction items with
  | nil => rfl
  | cons x xs ih => rw [compactItems, ih, List.map_cons, List.sum_cons]

theorem compactMembers_eq (m : List (String × Json)) :
    compactMembers m = (m.map fun e => quoted e.1 + 1 + compact e.2 + 1).sum := by
  induction m with
  | nil => rfl
  | cons e m ih => rw [compactMembers, ih, List.map_cons, List.sum_cons]

theorem textSizeItems_eq (items : List Json) : textSizeOfItems items = (items.map textSize).sum := by
  induction items with
  | nil => rfl
  | cons x xs ih => rw [textSizeOfItems, ih, List.map_cons, List.sum_cons]

theorem textSizeMembers_eq (m : List (String × Json)) : textSizeOfMembers m = (m.map fun e => textSize e.2).sum := by
  induction m with
  | nil => rfl
  | cons e m ih => rw [textSizeOfMembers, ih, List.map_cons, List.sum_cons]

/-- **Documents with the same members**, in another order: they are spelt in as many bytes, and have as much text. -/
structure Alike (v w : Json) : Prop where
  compact : compact v = compact w
  textSize : textSize v = textSize w

theorem Alike.refl (v : Json) : Alike v v := ⟨rfl, rfl⟩

theorem Alike.trans {u : Json} (h : Alike u v) (h' : Alike v w) : Alike u w :=
  ⟨h.compact.trans h'.compact, h.textSize.trans h'.textSize⟩

/-- The order of the members. -/
theorem alike_perm {m' : Mapping Json} (h : m.Perm m') : Alike (.obj m) (.obj m') := by
  refine ⟨?_, ?_⟩
  · rw [Gateway.compact, Gateway.compact, compactMembers_eq, compactMembers_eq, (h.map _).sum_eq]
  · rw [Gateway.textSize, Gateway.textSize, textSizeMembers_eq, textSizeMembers_eq, (h.map _).sum_eq]

theorem alike_items {l l' : List Json} (h : List.Forall₂ Alike l l') : Alike (.arr l) (.arr l') := by
  have hsums : compactItems l = compactItems l' ∧ textSizeOfItems l = textSizeOfItems l' := by
    induction h with
    | nil => exact ⟨rfl, rfl⟩
    | cons hx _ ih =>
      refine ⟨?_, ?_⟩
      · rw [compactItems, compactItems, hx.compact, ih.1]
      · rw [textSizeOfItems, textSizeOfItems, hx.textSize, ih.2]
  refine ⟨?_, ?_⟩
  · rw [Gateway.compact, Gateway.compact, hsums.1]
  · rw [Gateway.textSize, Gateway.textSize, hsums.2]

/-- The values of the members. -/
theorem alike_values {f : String × Json → Json} (h : ∀ e ∈ m, Alike (f e) e.2) :
    Alike (.obj (m.map fun e => (e.1, f e))) (.obj m) := by
  have hsums : compactMembers (m.map fun e => (e.1, f e)) = compactMembers m ∧
      textSizeOfMembers (m.map fun e => (e.1, f e)) = textSizeOfMembers m := by
    induction m with
    | nil => exact ⟨rfl, rfl⟩
    | cons e m ih =>
      obtain ⟨hcompact, htext⟩ := ih fun x hx => h x (List.mem_cons_of_mem e hx)
      have he := h e List.mem_cons_self
      refine ⟨?_, ?_⟩
      · rw [List.map_cons, compactMembers, compactMembers, he.compact, hcompact]
      · rw [List.map_cons, textSizeOfMembers, textSizeOfMembers, he.textSize, htext]
  refine ⟨?_, ?_⟩
  · rw [Gateway.compact, Gateway.compact, hsums.1]
  · rw [Gateway.textSize, Gateway.textSize, hsums.2]

/-! ## Objects -/

theorem get_of_mem {key : String} (hm : (m.map Prod.fst).Nodup) (he : (key, v) ∈ m) : m.get key = some v := by
  unfold Mapping.get
  obtain ⟨l, r, rfl⟩ := List.append_of_mem he
  rw [List.map_append, List.map_cons] at hm
  have hkey : ∀ e ∈ l, e.1 ≠ key := by
    intro e hel heq
    exact (List.nodup_append.1 hm).2.2 e.1 (List.mem_map_of_mem hel) key List.mem_cons_self heq
  have hnone : l.find? (fun item => decide (item.1 = key)) = none :=
    List.find?_eq_none.2 fun e hel => by simpa using hkey e hel
  rw [List.find?_append, hnone]
  simp

/-- An object that has exactly the keys of another. -/
theorem closed_keys (h : closed keys v = some m) : v = .obj m ∧ ∀ k, k ∈ m.map Prod.fst ↔ k ∈ keys := by
  cases v with
  | obj members =>
    unfold closed at h
    dsimp only at h
    split at h
    · rename_i hkeys
      cases h
      rw [Bool.and_eq_true, List.all_eq_true, List.all_eq_true] at hkeys
      refine ⟨rfl, fun k => ⟨fun hk => ?_, fun hk => ?_⟩⟩
      · obtain ⟨e, he, rfl⟩ := List.mem_map.1 hk
        exact List.contains_iff_mem.1 (hkeys.1 e he)
      · obtain ⟨e, he, hek⟩ := List.any_eq_true.1 (hkeys.2 k hk)
        exact List.mem_map.2 ⟨e, he, of_decide_eq_true hek⟩
    · cases h
  | _ => cases h

/-- **An object is alike to another with its keys**, where their values are alike. -/
theorem closed_alike {m' : Mapping Json} (h : closed (m'.map Prod.fst) v = some m) (hm : (m.map Prod.fst).Nodup)
    (hm' : (m'.map Prod.fst).Nodup) (hvalues : ∀ e ∈ m', ∃ x, m.get e.1 = some x ∧ Alike x e.2) : Alike v (.obj m') := by
  obtain ⟨rfl, hkeys⟩ := closed_keys h
  have hperm : m.Perm (m'.map fun e => (e.1, (m.get e.1).getD .null)) := by
    refine (List.perm_ext_iff_of_nodup hm.of_map ?_).2 fun e => ?_
    · refine List.Nodup.of_map Prod.fst ?_
      rw [List.map_map]
      exact hm'
    · rw [List.mem_map]
      constructor
      · intro he
        obtain ⟨e', he', hkey⟩ := List.mem_map.1 ((hkeys e.1).1 (List.mem_map_of_mem he))
        refine ⟨e', he', Prod.ext hkey ?_⟩
        show (m.get e'.1).getD .null = e.2
        rw [hkey, get_of_mem hm he]
        rfl
      · rintro ⟨e', he', rfl⟩
        obtain ⟨x, hx, -⟩ := hvalues e' he'
        rw [hx]
        exact Mapping.get_mem hx
  refine (alike_perm hperm).trans (alike_values fun e he => ?_)
  obtain ⟨x, hx, halike⟩ := hvalues e he
  rw [hx]
  exact halike

theorem uniqueKeys_obj (h : uniqueKeys (.obj m) = true) : (m.map Prod.fst).Nodup ∧ ∀ e ∈ m, uniqueKeys e.2 = true := by
  rw [uniqueKeys, Bool.and_eq_true, decide_eq_true_eq] at h
  refine ⟨h.1, ?_⟩
  have hmembers := h.2
  clear h
  induction m with
  | nil => exact fun e he => absurd he List.not_mem_nil
  | cons e m ih =>
    rw [uniqueKeysOfMembers, Bool.and_eq_true] at hmembers
    intro x hx
    rcases List.mem_cons.1 hx with rfl | hx
    · exact hmembers.1
    · exact ih hmembers.2 x hx

theorem uniqueKeys_arr {items : List Json} (h : uniqueKeys (.arr items) = true) : ∀ x ∈ items, uniqueKeys x = true := by
  rw [uniqueKeys] at h
  induction items with
  | nil => exact fun x hx => absurd hx List.not_mem_nil
  | cons y items ih =>
    rw [uniqueKeysOfItems, Bool.and_eq_true] at h
    intro x hx
    rcases List.mem_cons.1 hx with rfl | hx
    · exact h.1
    · exact ih h.2 x hx

/-- The values of an object without a key twice have no key twice. -/
theorem uniqueKeys_get {key : String} (h : ∀ e ∈ m, uniqueKeys e.2 = true) (hv : m.get key = some v) : uniqueKeys v = true :=
  h _ (Mapping.get_mem hv)

/-! ## Values -/

theorem text_str {s : String} (h : text v = some s) : v = .str s := by
  cases v <;> cases h
  rfl

theorem ident_str {s : String} (h : ident v = some s) : v = .str s ∧ isId s = true := by
  cases v with
  | str t =>
    unfold ident at h
    dsimp only at h
    split at h
    · cases h
      exact ⟨rfl, ‹_›⟩
    · cases h
  | _ => cases h

theorem ident_of {s : String} (h : isId s = true) : ident (.str s) = some s := if_pos h

theorem array_items {α : Type} {least most : ℕ} {item : Json → Option α} {l : List α}
    (h : array least most item v = some l) : ∃ items, v = .arr items ∧ least ≤ items.length ∧ items.length ≤ most ∧
      List.Forall₂ (fun x y => item x = some y) items l := by
  cases v with
  | arr items =>
    unfold array at h
    dsimp only at h
    split at h
    · rename_i hlength
      exact ⟨items, rfl, hlength.1, hlength.2, Sequence.mapM_some_iff.1 h⟩
    · cases h
  | _ => cases h

theorem array_of {α : Type} {least most : ℕ} {item : Json → Option α} {document : α → Json} {l : List α}
    (hleast : least ≤ l.length) (hmost : l.length ≤ most) (hitem : ∀ y ∈ l, item (document y) = some y) :
    array least most item (.arr (l.map document)) = some l := by
  unfold array
  dsimp only
  rw [if_pos ⟨by rwa [List.length_map], by rwa [List.length_map]⟩, Sequence.mapM_some_iff, List.forall₂_map_left_iff,
    List.forall₂_same]
  exact hitem

/-- **An array whose items are written as they are read.** -/
theorem array_rewrites {α : Type} {least most : ℕ} {item : Json → Option α} {document : α → Json} {l : List α}
    (h : array least most item v = some l) (hu : uniqueKeys v = true)
    (hitem : ∀ x y, item x = some y → uniqueKeys x = true → Alike x (document y) ∧ item (document y) = some y) :
    Alike v (.arr (l.map document)) ∧ array least most item (.arr (l.map document)) = some l ∧ l.length ≤ most := by
  obtain ⟨items, rfl, hleast, hmost, hitems⟩ := array_items h
  have hunique := uniqueKeys_arr hu
  have hboth : List.Forall₂ Alike items (l.map document) ∧ ∀ y ∈ l, item (document y) = some y := by
    clear h hu hleast hmost
    induction hitems with
    | nil => exact ⟨.nil, fun y hy => absurd hy List.not_mem_nil⟩
    | cons hx _ ih =>
      obtain ⟨hhead, hread⟩ := hitem _ _ hx (hunique _ List.mem_cons_self)
      obtain ⟨htail, hreads⟩ := ih fun z hz => hunique z (List.mem_cons_of_mem _ hz)
      exact ⟨.cons hhead htail, List.forall_mem_cons.2 ⟨hread, hreads⟩⟩
  rw [hitems.length_eq] at hleast hmost
  exact ⟨alike_items hboth.1, array_of hleast hmost hboth.2, hmost⟩

theorem ident_rewrites {s : String} (h : ident v = some s) : Alike v (.str s) ∧ ident (.str s) = some s := by
  obtain ⟨rfl, hvalid⟩ := ident_str h
  exact ⟨.refl _, ident_of hvalid⟩

/-! ## Limits -/

/-- **A document within limits**: so many values, so deep, and no key twice. -/
structure Within (v : Json) (values deep : ℕ) : Prop where
  nodes : nodes v ≤ values
  depth : depth v ≤ deep
  unique : uniqueKeys v = true

/-- The items of an array. -/
theorem within_items {α : Type} {document : α → Json} {l : List α} {values deep : ℕ}
    (h : ∀ y ∈ l, Within (document y) values deep) :
    Within (.arr (l.map document)) (1 + values * l.length) (1 + deep) := by
  have hsums : nodesOfItems (l.map document) ≤ values * l.length ∧ depthOfItems (l.map document) ≤ deep ∧
      uniqueKeysOfItems (l.map document) = true := by
    induction l with
    | nil => exact ⟨Nat.zero_le _, Nat.zero_le _, rfl⟩
    | cons y l ih =>
      have hy := h y List.mem_cons_self
      obtain ⟨hnodes, hdepth, hunique⟩ := ih fun z hz => h z (List.mem_cons_of_mem _ hz)
      simp only [List.map_cons, nodesOfItems, depthOfItems, uniqueKeysOfItems, List.length_cons, Bool.and_eq_true,
        Nat.mul_succ]
      have hfirst := hy.nodes
      exact ⟨by omega, max_le hy.depth hdepth, hy.unique, hunique⟩
  refine ⟨?_, ?_, ?_⟩
  · rw [Gateway.nodes]
    have hnodes := hsums.1
    omega
  · cases hl : l.map document with
    | nil => exact Nat.zero_le _
    | cons x xs =>
      rw [Gateway.depth, ← hl]
      exact Nat.add_le_add_left hsums.2.1 1
  · rw [uniqueKeys]
    exact hsums.2.2

theorem depth_obj {deep : ℕ} (h : ∀ e ∈ m, depth e.2 ≤ deep) : depth (.obj m) ≤ 1 + deep := by
  have hmembers : depthOfMembers m ≤ deep := by
    induction m with
    | nil => exact Nat.zero_le _
    | cons e m ih =>
      rw [depthOfMembers]
      exact max_le (h e List.mem_cons_self) (ih fun x hx => h x (List.mem_cons_of_mem _ hx))
  cases m with
  | nil => exact Nat.zero_le _
  | cons e m =>
    rw [Gateway.depth]
    exact Nat.add_le_add_left hmembers 1

theorem within_str (s : String) : Within (.str s) 1 0 := ⟨le_refl _, le_refl _, rfl⟩

/-! ## Payloads -/

/-- The document of a candidate. -/
def Candidate.document (c : Candidate) : Json := .obj [("candidate_id", .str c.candidateId), ("text", .str c.text)]

theorem within_candidate (c : Candidate) : Within c.document 3 1 := ⟨le_refl _, le_refl _, rfl⟩

theorem candidate_rewrites {c : Candidate} (h : candidate v = some c) (hu : uniqueKeys v = true) :
    Alike v c.document ∧ candidate c.document = some c := by
  unfold candidate at h
  simp only [Option.bind_eq_bind, Option.bind_eq_some_iff] at h
  obtain ⟨m, hm, x, hx, id, hid, y, hy, t, ht, hc⟩ := h
  cases hc
  obtain ⟨rfl, -⟩ := closed_keys hm
  obtain ⟨rfl, hvalid⟩ := ident_str hid
  obtain rfl := text_str ht
  have hkeys : ["candidate_id", "text"].Nodup := by decide
  refine ⟨closed_alike hm (uniqueKeys_obj hu).1 hkeys ?_, ?_⟩
  · simp [hx, hy, Alike.refl]
  · unfold Candidate.document candidate
    simp [closed, Mapping.get, ident_of hvalid, text]

/-- **A payload that is read** for a service is alike to the one that is written, which is read as the same. -/
structure Rewrites (kind : Service) (read : Json → Option Payload) (v : Json) (p : Payload) : Prop where
  alike : Alike v p.document
  read : read p.document = some p
  service : ∀ r : Request, r.payload = p → r.service = kind
  within : Within p.document 100 3

theorem llmInput_rewrites {p : Payload} (h : llmInput v = some p) (hu : uniqueKeys v = true) : Rewrites .llm llmInput v p := by
  unfold llmInput at h
  simp only [Option.bind_eq_bind, Option.bind_eq_some_iff] at h
  obtain ⟨m, hm, x, hx, candidates, hcandidates, hrest⟩ := h
  split at hrest
  · rename_i hnodup
    simp only [Option.bind_eq_some_iff] at hrest
    obtain ⟨y, hy, t, ht, z, hz, c, hc, hp⟩ := hrest
    cases hp
    obtain ⟨rfl, -⟩ := closed_keys hm
    obtain ⟨hnames, hvalues⟩ := uniqueKeys_obj hu
    obtain rfl := text_str ht
    obtain rfl := text_str hc
    obtain ⟨halike, hread, hlength⟩ :=
      array_rewrites hcandidates (uniqueKeys_get hvalues hx) fun _ _ hitem _ => ident_rewrites hitem
    have hwithin : Within (.arr (candidates.map .str)) (1 + 1 * candidates.length) (1 + 0) :=
      within_items fun id _ => within_str id
    have hkeys : ["text", "context", "candidates"].Nodup := by decide
    refine ⟨closed_alike hm hnames hkeys ?_, ?_, fun r hr => ?_, ?_⟩
    · simp [hx, hy, hz, Alike.refl, halike]
    · unfold Payload.document llmInput
      simp [closed, Mapping.get, text, hread, hnodup]
    · rw [Request.service, hr]
    · obtain ⟨hnodes, hdepth, hunique⟩ := hwithin
      refine ⟨?_, ?_, ?_⟩
      · simp only [Payload.document, nodes, nodesOfMembers] at hnodes ⊢
        omega
      · refine (depth_obj (fun e he => ?_) : _ ≤ 1 + 2)
        simp only [List.mem_cons, List.not_mem_nil, or_false] at he
        rcases he with rfl | rfl | rfl
        · exact Nat.zero_le _
        · exact Nat.zero_le _
        · exact hdepth.trans (by decide)
      · simp only [Payload.document, uniqueKeys, uniqueKeysOfMembers] at hunique ⊢
        rw [hunique]
        rfl
  · cases hrest

theorem evaluatorInput_rewrites {p : Payload} (h : evaluatorInput v = some p) (hu : uniqueKeys v = true) :
    Rewrites .evaluator evaluatorInput v p := by
  unfold evaluatorInput at h
  simp only [Option.bind_eq_bind, Option.bind_eq_some_iff] at h
  obtain ⟨m, hm, x, hx, candidates, hcandidates, hrest⟩ := h
  split at hrest
  · rename_i hnodup
    simp only [Option.bind_eq_some_iff] at hrest
    obtain ⟨y, hy, t, ht, hp⟩ := hrest
    cases hp
    obtain ⟨rfl, -⟩ := closed_keys hm
    obtain ⟨hnames, hvalues⟩ := uniqueKeys_obj hu
    obtain rfl := text_str ht
    obtain ⟨halike, hread, hlength⟩ := array_rewrites hcandidates (uniqueKeys_get hvalues hx) fun _ _ => candidate_rewrites
    have hwithin : Within (.arr (candidates.map Candidate.document)) (1 + 3 * candidates.length) (1 + 1) :=
      within_items fun c _ => within_candidate c
    have hkeys : ["context", "candidates"].Nodup := by decide
    refine ⟨closed_alike hm hnames hkeys ?_, ?_, fun r hr => ?_, ?_⟩
    · have hwritten : Alike x (.arr (candidates.map fun c =>
          .obj [("candidate_id", .str c.candidateId), ("text", .str c.text)])) := halike
      simpa [hx, hy, Alike.refl] using hwritten
    · show evaluatorInput (.obj [("context", .str t), ("candidates", .arr (candidates.map Candidate.document))]) = _
      unfold evaluatorInput
      simp [closed, Mapping.get, text, hread, hnodup]
    · rw [Request.service, hr]
    · show Within (.obj [("context", .str t), ("candidates", .arr (candidates.map Candidate.document))]) 100 3
      obtain ⟨hnodes, hdepth, hunique⟩ := hwithin
      refine ⟨?_, ?_, ?_⟩
      · simp only [nodes, nodesOfMembers] at hnodes ⊢
        omega
      · refine (depth_obj (fun e he => ?_) : _ ≤ 1 + 2)
        simp only [List.mem_cons, List.not_mem_nil, or_false] at he
        rcases he with rfl | rfl
        · exact Nat.zero_le _
        · exact hdepth
      · simp only [uniqueKeys, uniqueKeysOfMembers] at hunique ⊢
        rw [hunique]
        rfl
  · cases hrest

theorem ttsInput_rewrites {p : Payload} (h : ttsInput v = some p) (hu : uniqueKeys v = true) : Rewrites .tts ttsInput v p := by
  unfold ttsInput at h
  simp only [Option.bind_eq_bind, Option.bind_eq_some_iff] at h
  obtain ⟨m, hm, x, hx, t, ht, hrest⟩ := h
  split at hrest
  · rename_i hne
    simp only [Option.bind_eq_some_iff] at hrest
    obtain ⟨y, hy, voice, hvoice, hp⟩ := hrest
    cases hp
    obtain ⟨rfl, -⟩ := closed_keys hm
    obtain rfl := text_str ht
    obtain ⟨rfl, hvalid⟩ := ident_str hvoice
    have hkeys : ["text", "voice"].Nodup := by decide
    refine ⟨closed_alike hm (uniqueKeys_obj hu).1 hkeys ?_, ?_, fun r hr => ?_, ?_⟩
    · simp [hx, hy, Alike.refl]
    · unfold Payload.document ttsInput
      simp [closed, Mapping.get, text, ident_of hvalid, hne]
    · rw [Request.service, hr]
    · exact ⟨(by decide : 3 ≤ 100), (by decide : 1 ≤ 3), rfl⟩
  · cases hrest

/-! ## Requests -/

/-- The document of a request. -/
def Request.document (r : Request) : Json :=
  .obj (envelope r ++ [("budget_ms", .int r.budgetMs), ("payload", r.payload.document)])

theorem revision_int {i : ℤ} (h : revision v = some i) : v = .int i ∧ revision (.int i) = some i := by
  cases v with
  | int j =>
    unfold revision at h
    dsimp only at h
    split at h
    · cases h
      exact ⟨rfl, if_pos ‹_›⟩
    · cases h
  | _ => cases h

theorem service_str {kind : Service} (h : service v = some kind) : v = .str kind.text ∧ service (.str kind.text) = some kind := by
  cases v with
  | str s =>
    have hs : kind.text = s := by simpa using List.find?_some h
    rw [← hs]
    refine ⟨rfl, ?_⟩
    cases kind <;> decide
  | _ => cases h

/-- What reads the payload of a service. -/
def payloadOf (kind : Service) (v : Json) : Option Payload :=
  match kind with
  | .llm => llmInput v
  | .evaluator => evaluatorInput v
  | .tts => ttsInput v

theorem payload_rewrites {kind : Service} {p : Payload} (h : payloadOf kind v = some p) (hu : uniqueKeys v = true) :
    Rewrites kind (payloadOf kind) v p := by
  cases kind with
  | llm => exact llmInput_rewrites h hu
  | evaluator => exact evaluatorInput_rewrites h hu
  | tts => exact ttsInput_rewrites h hu

/-- The request of the members of a document, once its payload is read. -/
def assemble (m : Mapping Json) (raw : Json) (payload : Payload) : Option Request :=
  match m.get "version", m.get "budget_ms" with
  | some (.int 1), some (.int budget) =>
    if 1 ≤ budget ∧ budget ≤ 30000 ∧ textSize raw ≤ textLimit then do
      pure
        { requestId := ← ident (← m.get "request_id")
          providerId := ← ident (← m.get "provider_id")
          modelVersion := ← ident (← m.get "model_version")
          catalogVersion := ← revision (← m.get "catalog_version")
          budgetMs := budget
          payload := payload }
    else none
  | _, _ => none

/-- The fields of a request. -/
def requestFields : List String :=
  ["version", "request_id", "service", "provider_id", "model_version", "catalog_version", "budget_ms", "payload"]

theorem decodeRequest_eq : decodeRequest doc = (closed requestFields doc).bind fun m =>
    ((m.get "service").bind service).bind fun kind => (m.get "payload").bind fun raw =>
      (payloadOf kind raw).bind (assemble m raw) := by
  unfold decodeRequest
  refine Option.bind_congr fun m _ => ?_
  rw [Option.bind_assoc]
  refine Option.bind_congr fun s _ => Option.bind_congr fun kind _ => Option.bind_congr fun raw _ => ?_
  cases kind <;> rfl

theorem assemble_iff {r : Request} {p : Payload} : assemble m w p = some r ↔
    m.get "version" = some (.int 1) ∧ m.get "budget_ms" = some (.int r.budgetMs) ∧ 1 ≤ r.budgetMs ∧ r.budgetMs ≤ 30000 ∧
      textSize w ≤ textLimit ∧ (m.get "request_id").bind ident = some r.requestId ∧
      (m.get "provider_id").bind ident = some r.providerId ∧ (m.get "model_version").bind ident = some r.modelVersion ∧
      (m.get "catalog_version").bind revision = some r.catalogVersion ∧ r.payload = p := by
  constructor
  · intro h
    unfold assemble at h
    split at h
    · rename_i budget hversion hbudget
      split at h
      · rename_i hlimits
        simp only [Option.bind_eq_bind, Option.bind_eq_some_iff] at h
        obtain ⟨a, ha, requestId, hrequest, b, hb, providerId, hprovider, c, hc, modelVersion, hmodel, d, hd,
          catalogVersion, hcatalog, hr⟩ := h
        cases hr
        refine ⟨hversion, hbudget, hlimits.1, hlimits.2.1, hlimits.2.2, ?_, ?_, ?_, ?_, rfl⟩
        · rw [ha, Option.bind_some, hrequest]
        · rw [hb, Option.bind_some, hprovider]
        · rw [hc, Option.bind_some, hmodel]
        · rw [hd, Option.bind_some, hcatalog]
      · cases h
    · cases h
  · rintro ⟨hversion, hbudget, hleast, hmost, htext, hrequest, hprovider, hmodel, hcatalog, rfl⟩
    obtain ⟨a, ha, hrequest⟩ := Option.bind_eq_some_iff.1 hrequest
    obtain ⟨b, hb, hprovider⟩ := Option.bind_eq_some_iff.1 hprovider
    obtain ⟨c, hc, hmodel⟩ := Option.bind_eq_some_iff.1 hmodel
    obtain ⟨d, hd, hcatalog⟩ := Option.bind_eq_some_iff.1 hcatalog
    unfold assemble
    rw [hversion, hbudget, ha, hb, hc, hd]
    refine (if_pos ⟨hleast, hmost, htext⟩).trans ?_
    simp only [Option.bind_eq_bind, Option.bind_some, hrequest, hprovider, hmodel, hcatalog]
    rfl

theorem within_document {r : Request} (hw : Within r.payload.document 100 3) : Within r.document 200 4 := by
  obtain ⟨hnodes, hdepth, hunique⟩ := hw
  refine ⟨?_, ?_, ?_⟩
  · simp only [Request.document, envelope, List.cons_append, List.nil_append, nodes, nodesOfMembers] at hnodes ⊢
    omega
  · refine (depth_obj fun e he => ?_ : _ ≤ 1 + 3)
    rcases List.mem_append.1 he with he | he
    · simp only [envelope, List.mem_cons, List.not_mem_nil, or_false] at he
      rcases he with rfl | rfl | rfl | rfl | rfl | rfl <;> exact Nat.zero_le _
    · simp only [List.mem_cons, List.not_mem_nil, or_false] at he
      rcases he with rfl | rfl
      · exact Nat.zero_le _
      · exact hdepth
  · have hkeys : requestFields.Nodup := by decide
    simp only [Request.document, envelope, List.cons_append, List.nil_append, uniqueKeys, uniqueKeysOfMembers, hunique]
    exact Bool.and_eq_true_iff.2 ⟨decide_eq_true hkeys, rfl⟩

/-- **A request that is read** is alike to the document of it, which is read as the same. -/
theorem decodeRequest_rewrites {r : Request} (h : decodeRequest doc = some r) (hu : uniqueKeys doc = true) :
    Alike doc r.document ∧ decodeRequest r.document = some r ∧ Within r.document 200 4 := by
  rw [decodeRequest_eq] at h
  simp only [Option.bind_eq_some_iff] at h
  obtain ⟨m, hm, kind, ⟨x, hx, hkind⟩, raw, hraw, p, hp, hr⟩ := h
  obtain ⟨hversion, hbudget, hleast, hmost, htext, hrequest, hprovider, hmodel, hcatalog, rfl⟩ := assemble_iff.1 hr
  simp only [Option.bind_eq_some_iff] at hrequest hprovider hmodel hcatalog
  obtain ⟨a, ha, hrequest⟩ := hrequest
  obtain ⟨b, hb, hprovider⟩ := hprovider
  obtain ⟨c, hc, hmodel⟩ := hmodel
  obtain ⟨d, hd, hcatalog⟩ := hcatalog
  obtain ⟨rfl, -⟩ := closed_keys hm
  obtain ⟨hnames, hvalues⟩ := uniqueKeys_obj hu
  obtain ⟨rfl, hrequest⟩ := ident_str hrequest
  obtain ⟨rfl, hprovider⟩ := ident_str hprovider
  obtain ⟨rfl, hmodel⟩ := ident_str hmodel
  obtain ⟨rfl, hcatalog⟩ := revision_int hcatalog
  obtain ⟨rfl, hkind⟩ := service_str hkind
  obtain ⟨halike, hread, hservice, hwithin⟩ := payload_rewrites hp (uniqueKeys_get hvalues hraw)
  obtain rfl : r.service = kind := hservice r rfl
  have hkeys : requestFields.Nodup := by decide
  refine ⟨closed_alike hm hnames hkeys ?_, ?_, ?_⟩
  · simp [envelope, hversion, hbudget, ha, hb, hc, hd, hx, hraw, Alike.refl, halike]
  · have hclosed : closed requestFields r.document =
        some (envelope r ++ [("budget_ms", .int r.budgetMs), ("payload", r.payload.document)]) := by
      unfold Request.document
      simp [closed, requestFields, envelope]
    rw [decodeRequest_eq, hclosed]
    simp [Mapping.get, envelope, hkind, hread, assemble_iff, hrequest, hprovider, hmodel, hcatalog, hleast, hmost,
      halike.textSize ▸ htext]
  · exact within_document hwithin

/-! ## The codec -/

/-- **What the library does with a document**: it loads what it dumps of it, it dumps it as short as it can be spelt, and
it loads no document from fewer bytes than spell it. -/
structure Codec.Spells (codec : Codec) (raw : Bytes) (doc : Json) : Prop where
  loads_dumps : codec.loads (codec.dumps doc) = some doc
  dumps_length : (codec.dumps doc).length = compact doc
  compact_le : ∀ read, codec.loads raw = some read → compact read ≤ raw.length

theorem load_some {raw : Bytes} {limit : ℕ} (h : load codec (some raw) limit = some doc) :
    raw.length ≤ limit ∧ codec.loads raw = some doc ∧ uniqueKeys doc = true := by
  simp only [load, Option.bind_eq_bind, Option.bind_some] at h
  split at h
  · cases h
  rename_i hlength
  obtain ⟨read, hread, h⟩ := Option.bind_eq_some_iff.1 h
  split at h
  · rename_i hwithin
    cases h
    simp only [Bool.and_eq_true] at hwithin
    exact ⟨not_lt.1 hlength, hread, hwithin.1.1⟩
  · cases h

theorem load_of {raw : Bytes} {limit : ℕ} (hlength : raw.length ≤ limit) (hread : codec.loads raw = some doc)
    (hwithin : Within doc nodesLimit depthLimit) : load codec (some raw) limit = some doc := by
  simp only [load, Option.bind_eq_bind, Option.bind_some]
  rw [if_neg (not_lt.2 hlength), hread, Option.bind_some, if_pos]
  rw [hwithin.unique, decide_eq_true hwithin.depth, decide_eq_true hwithin.nodes]
  rfl

theorem parseRequest_ok {raw : Bytes} {r : Request} :
    parseRequest codec (some raw) = .ok r ↔ (load codec (some raw) requestLimit).bind decodeRequest = some r := by
  unfold parseRequest
  cases (load codec (some raw) requestLimit).bind decodeRequest with
  | none => simp
  | some r' => simp

/-- **Canonical requests.** Whatever bytes are parsed as a request, the request is written in no more bytes, these are
parsed as the same request, and what is written of it then are the same bytes. -/
theorem request_canonical {raw : Bytes} {r : Request} (hcodec : codec.Spells raw r.document)
    (h : parseRequest codec (some raw) = .ok r) :
    ∃ bytes, requestBytes codec (some r) = .ok bytes ∧ bytes.length ≤ raw.length ∧
      parseRequest codec (some bytes) = .ok r ∧
      ∀ r', parseRequest codec (some bytes) = .ok r' → requestBytes codec (some r') = .ok bytes := by
  obtain ⟨doc, hload, hdecode⟩ := Option.bind_eq_some_iff.1 (parseRequest_ok.1 h)
  obtain ⟨hlimit, hread, hunique⟩ := load_some hload
  obtain ⟨halike, hrewrites, hwithin⟩ := decodeRequest_rewrites hdecode hunique
  -- no spelling of the request is shorter than the one that is written
  have hlength : (codec.dumps r.document).length ≤ raw.length := by
    rw [hcodec.dumps_length, ← halike.compact]
    exact hcodec.compact_le doc hread
  have hwithin' : Within r.document nodesLimit depthLimit :=
    ⟨hwithin.nodes.trans (by decide), hwithin.depth.trans (by decide), hwithin.unique⟩
  have hparse : parseRequest codec (some (codec.dumps r.document)) = .ok r := by
    rw [parseRequest_ok, load_of (hlength.trans hlimit) hcodec.loads_dumps hwithin', Option.bind_some, hrewrites]
  have hbytes : requestBytes codec (some r) = .ok (codec.dumps r.document) := by
    unfold requestBytes
    unfold Request.document at hparse
    dsimp only
    rw [hparse]
    rfl
  refine ⟨codec.dumps r.document, hbytes, hlength, hparse, fun r' hr' => ?_⟩
  rw [hparse] at hr'
  cases hr'
  exact hbytes

namespace Example

/-- A request for speech, written with blanks, an escape and the members in another order. -/
def speechRaw : Bytes :=
  (" \x7b\"payload\": \x7b\"voice\":\"v\",\"text\":\"\\u0061\"\x7d,\"version\":1,\"budget_ms\":5,\"service\":\"tts\"," ++
    "\"request_id\":\"r\",\"provider_id\":\"p\",\"model_version\":\"m\",\"catalog_version\":1\x7d").toUTF8.data.toList

/-- The document of it. -/
def speechRead : Json :=
  .obj [("payload", .obj [("voice", .str "v"), ("text", .str "a")]), ("version", .int 1), ("budget_ms", .int 5),
    ("service", .str "tts"), ("request_id", .str "r"), ("provider_id", .str "p"), ("model_version", .str "m"),
    ("catalog_version", .int 1)]

/-- The request. -/
def speech : Request := ⟨"r", "p", "m", 1, 5, .speech "a" "v"⟩

/-- What is written of it. -/
def speechText : Bytes :=
  ("\x7b\"version\":1,\"request_id\":\"r\",\"service\":\"tts\",\"provider_id\":\"p\",\"model_version\":\"m\"," ++
    "\"catalog_version\":1,\"budget_ms\":5,\"payload\":\x7b\"text\":\"a\",\"voice\":\"v\"\x7d\x7d").toUTF8.data.toList

/-- JSON, of these documents. -/
def speechCodec : Codec where
  loads b := if b = speechRaw then some speechRead else if b = speechText then some speech.document else none
  dumps j := if j = speech.document then speechText else []
  b64decode _ := none
  b64encode _ := ""

end Example

theorem request_canonical_speech :
    ∃ bytes, requestBytes Example.speechCodec (some Example.speech) = .ok bytes ∧
      bytes.length ≤ Example.speechRaw.length ∧ parseRequest Example.speechCodec (some bytes) = .ok Example.speech ∧
      ∀ r', parseRequest Example.speechCodec (some bytes) = .ok r' →
        requestBytes Example.speechCodec (some r') = .ok bytes := by
  refine request_canonical ⟨?_, ?_, fun read hread => ?_⟩ ?_
  · decide +kernel
  · decide +kernel
  · have hspeech : Example.speechCodec.loads Example.speechRaw = some Example.speechRead := by decide +kernel
    rw [hspeech] at hread
    cases hread
    decide +kernel
  · decide +kernel

end Gateway

end Arhugula
