import Arhugula.Sequence.Traverse
import Arhugula.Spec.Codec

/-!
# Decoding and encoding are inverse

Thawing undoes freezing on JSON values (`thaw_freeze`), and a record is thawed to the payload that it was decoded from
(`decode_thaw`). A dict is determined by its members, since they are kept in the order of their keys, so what is built
of its text is the dict in whatever order its members stand (`build_spells`).
-/

namespace Arhugula

namespace Codec

open Strings

variable {v w p r : Py} {vs : List Py} {ms ms' fields values : List (Text × Py)} {key : Text} {kind : Kind}

/-! ## Dicts -/

theorem Sorted.nodup (h : Sorted ms) : (ms.map Prod.fst).Nodup := by
  unfold List.Nodup
  rw [List.pairwise_map]
  exact h.imp fun hlt => ne_of_lt hlt

/-- **A dict is determined by its members.** -/
theorem Sorted.ext (h : Sorted ms) (h' : Sorted ms') (hmem : ∀ m, m ∈ ms ↔ m ∈ ms') : ms = ms' := by
  have hperm : ms.Perm ms' := (List.perm_ext_iff_of_nodup (h.nodup.of_map Prod.fst) (h'.nodup.of_map Prod.fst)).2 hmem
  exact hperm.eq_of_pairwise (fun a b _ _ hab hba => absurd (hab.trans hba) (lt_irrefl _)) h h'

theorem mem_ordered {m : Text × Py} : m ∈ ordered ms ↔ m ∈ ms := (List.perm_insertionSort _ ms).mem_iff

theorem ordered_sorted (h : (ms.map Prod.fst).Nodup) : Sorted (ordered ms) := by
  have hperm : (ordered ms).Perm ms := List.perm_insertionSort _ ms
  have hle : (ordered ms).Pairwise fun a b => a.1 ≤ b.1 := by
    have hsort := List.pairwise_insertionSort (fun a b : Text × Py => a.1 ≤ b.1)
    exact hsort ms
  have hne : (ordered ms).Pairwise fun a b => a.1 ≠ b.1 := by
    have hnodup := (hperm.map Prod.fst).nodup_iff.2 h
    unfold List.Nodup at hnodup
    rwa [List.pairwise_map] at hnodup
  exact (hle.and hne).imp fun hab => lt_of_le_of_ne hab.1 hab.2

theorem get_mem {β : Type} {l : List (Text × β)} {v : β} (h : get l key = some v) : (key, v) ∈ l := by
  unfold get at h
  obtain ⟨⟨k, u⟩, hfind, rfl⟩ := Option.map_eq_some_iff.1 h
  have hk : k = key := by simpa using List.find?_some hfind
  rw [← hk]
  exact List.mem_of_find?_eq_some hfind

/-- What is there twice under one key is one. -/
theorem nodup_unique {l : List (Text × Py)} (h : (l.map Prod.fst).Nodup) (hv : (key, v) ∈ l) (hw : (key, w) ∈ l) : v = w := by
  have heq := List.inj_on_of_nodup_map h hv hw rfl
  exact (Prod.mk.inj heq).2

/-! ## Freezing and thawing -/

theorem freezeMembers_eq : freezeMembers ms = ms.map fun m => (m.1, freeze m.2) := by
  induction ms with
  | nil => rfl
  | cons m ms ih => rw [freezeMembers, ih, List.map_cons]

theorem thawMembers_eq : thawMembers ms = ms.map fun m => (m.1, thaw m.2) := by
  induction ms with
  | nil => rfl
  | cons m ms ih => rw [thawMembers, ih, List.map_cons]

theorem sorted_thaw (h : Sorted ms) : Sorted (thawMembers ms) := by
  rw [thawMembers_eq]
  exact List.pairwise_map.2 h

theorem isJsonMembers_iff : isJsonMembers ms = true ↔ ∀ m ∈ ms, isJson m.2 = true := by
  induction ms with
  | nil => simp [isJsonMembers]
  | cons m ms ih => simp [isJsonMembers, ih]

theorem wfMembers_iff : WfMembers ms ↔ ∀ m ∈ ms, Wf m.2 := by
  induction ms with
  | nil => simp [WfMembers]
  | cons m ms ih => simp [WfMembers, ih]

theorem wfItems_iff : WfItems vs ↔ ∀ v ∈ vs, Wf v := by
  induction vs with
  | nil => simp [WfItems]
  | cons v vs ih => simp [WfItems, ih]

mutual

/-- **Thawing undoes freezing.** -/
theorem thaw_freeze : ∀ v, isJson v = true → thaw (freeze v) = v
  | .none, _ | .bool _, _ | .int _, _ | .float _, _ | .str _, _ => by simp [freeze, thaw]
  | .list items, h => by
    rw [isJson] at h
    rw [freeze, thaw, thaw_freezeItems items h]
  | .dict members, h => by
    rw [isJson] at h
    rw [freeze, thaw, thaw_freezeMembers members h]

theorem thaw_freezeItems : ∀ vs, isJsonItems vs = true → thawItems (freezeItems vs) = vs
  | [], _ => rfl
  | v :: vs, h => by
    rw [isJsonItems, Bool.and_eq_true] at h
    rw [freezeItems, thawItems, thaw_freeze v h.1, thaw_freezeItems vs h.2]

theorem thaw_freezeMembers : ∀ ms, isJsonMembers ms = true → thawMembers (freezeMembers ms) = ms
  | [], _ => rfl
  | (k, v) :: ms, h => by
    rw [isJsonMembers, Bool.and_eq_true] at h
    rw [freezeMembers, thawMembers, thaw_freeze v h.1, thaw_freezeMembers ms h.2]

end

mutual

/-- JSON values of one text are one. -/
theorem sameText_eq : ∀ v w, sameText v w = true → v = w
  | .none, w, h | .bool _, w, h | .int _, w, h | .float _, w, h | .str _, w, h => by
    cases w <;> simp_all [sameText]
  | .tuple _, w, h | .proxy _, w, h | .record _ _, w, h | .other, w, h => by cases w <;> simp [sameText] at h
  | .list items, w, h => by
    cases w with
    | list items' =>
      rw [sameText] at h
      rw [sameItems_eq items items' h]
    | _ => simp [sameText] at h
  | .dict members, w, h => by
    cases w with
    | dict members' =>
      rw [sameText] at h
      rw [sameMembers_eq members members' h]
    | _ => simp [sameText] at h

theorem sameItems_eq : ∀ vs ws, sameItems vs ws = true → vs = ws
  | [], ws, h => by cases ws <;> simp_all [sameItems]
  | v :: vs, ws, h => by
    cases ws with
    | nil => simp [sameItems] at h
    | cons w ws =>
      rw [sameItems, Bool.and_eq_true] at h
      rw [sameText_eq v w h.1, sameItems_eq vs ws h.2]

theorem sameMembers_eq : ∀ ms ns, sameMembers ms ns = true → ms = ns
  | [], ns, h => by cases ns <;> simp_all [sameMembers]
  | (k, v) :: ms, ns, h => by
    cases ns with
    | nil => simp [sameMembers] at h
    | cons n ns =>
      obtain ⟨l, w⟩ := n
      simp only [sameMembers, Bool.and_eq_true, decide_eq_true_eq] at h
      rw [h.1.1, sameText_eq v w h.1.2, sameMembers_eq ms ns h.2]

end

/-! ## Records -/

theorem kind_names (kind : Kind) : ("kind".toList :: kind.names).Nodup := by cases kind <;> decide

theorem ofName_name {name : Text} (h : Kind.ofName name = some kind) : kind.name = name := by
  unfold Kind.ofName at h
  simpa using List.find?_some h

/-- The fields of a record are values of their names. -/
theorem mapM_fields {names : List Text} (h : (names.mapM fun n => (get values n).map fun v => (n, v)) = some fields) :
    fields.map Prod.fst = names ∧ ∀ f ∈ fields, f ∈ values := by
  have hall := Sequence.mapM_some_iff.1 h
  clear h
  induction hall with
  | nil => exact ⟨rfl, by simp⟩
  | cons hf _ ih =>
    obtain ⟨v, hv, rfl⟩ := Option.map_eq_some_iff.1 hf
    obtain ⟨hnames, hmem⟩ := ih
    refine ⟨by rw [List.map_cons, hnames], fun x hx => ?_⟩
    rcases List.mem_cons.1 hx with rfl | hx
    · exact get_mem hv
    · exact hmem x hx

/-- **A record thaws to the payload whose values it has.** -/
theorem construct_thaw (hs : Sorted ms) (hkind : get ms "kind".toList = some (.str kind.name))
    (hvalues : values.map (fun v => (v.1, thaw v.2)) = ms.filter fun m => m.1 ≠ "kind".toList)
    (h : construct kind values = some r) : (∃ fields, r = .record kind fields) ∧ thaw r = .dict ms := by
  unfold construct at h
  split at h
  case isFalse => cases h
  rename_i hknown
  obtain ⟨fields, hfields, rfl⟩ := Option.map_eq_some_iff.1 h
  obtain ⟨hnames, hmem⟩ := mapM_fields hfields
  refine ⟨⟨fields, rfl⟩, ?_⟩
  have hkeys : (values.map Prod.fst).Nodup := by
    have hmap : values.map Prod.fst = (ms.filter fun m => m.1 ≠ "kind".toList).map Prod.fst := by
      rw [← hvalues, List.map_map]
      rfl
    rw [hmap]
    exact (List.filter_sublist.map Prod.fst).nodup hs.nodup
  have hfieldKeys : (fields.map Prod.fst).Nodup := by
    rw [hnames]
    exact (List.nodup_cons.1 (kind_names kind)).2
  rw [thaw, thawMembers_eq]
  refine congrArg Py.dict (Sorted.ext (ordered_sorted ?_) hs fun m => ?_)
  · rw [List.map_cons, List.map_map]
    have hmap : (fields.map (Prod.fst ∘ fun m : Text × Py => (m.1, thaw m.2))) = kind.names := hnames
    rw [hmap]
    exact kind_names kind
  rw [mem_ordered, List.mem_cons]
  constructor
  · rintro (rfl | hm)
    · exact get_mem hkind
    · obtain ⟨f, hf, rfl⟩ := List.mem_map.1 hm
      have hthawed : (f.1, thaw f.2) ∈ values.map fun v => (v.1, thaw v.2) := List.mem_map.2 ⟨f, hmem f hf, rfl⟩
      rw [hvalues] at hthawed
      exact List.mem_of_mem_filter hthawed
  · intro hm
    by_cases hk : m.1 = "kind".toList
    · left
      have hvalue : m.2 = .str kind.name := nodup_unique hs.nodup (hk ▸ hm) (get_mem hkind)
      exact Prod.ext hk hvalue
    · right
      have hrest : m ∈ ms.filter fun m => m.1 ≠ "kind".toList := List.mem_filter.2 ⟨hm, by simpa using hk⟩
      rw [← hvalues] at hrest
      obtain ⟨u, hu, rfl⟩ := List.mem_map.1 hrest
      -- the value is one of a field, since it has the name of one
      have hname : u.1 ∈ kind.names := by simpa using List.all_eq_true.1 hknown u hu
      rw [← hnames] at hname
      obtain ⟨f, hf, hfu⟩ := List.mem_map.1 hname
      have hsame : f.2 = u.2 := nodup_unique hkeys (hfu ▸ hmem f hf) hu
      exact List.mem_map.2 ⟨f, hf, by rw [hfu, hsame]⟩

/-- What is decoded thaws to its payload, if what is embedded does. -/
theorem decodeWith_thaw {embedded : Py → Option Py} (hembedded : ∀ e r, Wf e → embedded e = some r → thaw r = e)
    (hp : Wf p) (h : decodeWith embedded p = some r) : (∃ kind fields, r = .record kind fields) ∧ thaw r = p := by
  unfold decodeWith at h
  split at h
  · cases h
  rename_i hjson
  split at h
  case h_2 => cases h
  rename_i members
  split at h
  case h_2 => cases h
  rename_i name hname
  split at h
  · cases h
  rename_i kind hkind
  split at h
  · cases h
  obtain ⟨hs, hw⟩ : Sorted members ∧ WfMembers members := hp
  have hk : get members "kind".toList = some (.str kind.name) := by
    rw [hname, ofName_name hkind]
  have hall : ∀ m ∈ members, isJson m.2 = true := by
    have hmembers : isJsonMembers members = true := by simpa [isJson] using hjson
    exact isJsonMembers_iff.1 hmembers
  have hfrozen : ((members.filter fun m => m.1 ≠ "kind".toList).map fun m => (m.1, freeze m.2)).map
      (fun v => (v.1, thaw v.2)) = members.filter fun m => m.1 ≠ "kind".toList := by
    rw [List.map_map]
    conv_rhs => rw [← List.map_id (members.filter _)]
    refine List.map_congr_left fun m hm => ?_
    simp [thaw_freeze m.2 (hall m (List.mem_of_mem_filter hm))]
  dsimp only at h
  split at h
  · split at h
    · cases h
    · rename_i error herror
      obtain ⟨e, he, hdecoded⟩ := Option.bind_eq_some_iff.1 herror
      have hmem := get_mem he
      have hthaw := hembedded e error (wfMembers_iff.1 hw _ hmem) hdecoded
      have hreplaced : (((members.filter fun m => m.1 ≠ "kind".toList).map fun m => (m.1, freeze m.2)).map
          fun v => if v.1 = "error".toList then (v.1, error) else v).map (fun v => (v.1, thaw v.2)) =
            members.filter fun m => m.1 ≠ "kind".toList := by
        rw [List.map_map]
        refine Eq.trans (List.map_congr_left fun v hv => ?_) hfrozen
        by_cases hv' : v.1 = "error".toList
        · -- the error that is embedded is the one of the payload
          obtain ⟨m, hm, rfl⟩ := List.mem_map.1 hv
          have hsame : m.2 = e := nodup_unique hs.nodup (hv' ▸ List.mem_of_mem_filter hm) hmem
          simp only [Function.comp_apply, if_pos hv', hthaw]
          rw [thaw_freeze m.2 (hall m (List.mem_of_mem_filter hm)), hsame]
        · simp only [Function.comp_apply, if_neg hv']
      obtain ⟨⟨fields, hr⟩, ht⟩ := construct_thaw hs hk hreplaced h
      exact ⟨⟨kind, fields, hr⟩, ht⟩
  · obtain ⟨⟨fields, hr⟩, ht⟩ := construct_thaw hs hk hfrozen h
    exact ⟨⟨kind, fields, hr⟩, ht⟩

/-- **A decoded record thaws to its payload.** -/
theorem decode_thaw (hp : Wf p) (h : decode p = some r) : (∃ kind fields, r = .record kind fields) ∧ thaw r = p := by
  refine decodeWith_thaw (fun e r he hr => ?_) hp h
  exact (decodeWith_thaw (fun e r _ hr => by cases hr) he hr).2

theorem encode_decode (hp : Wf p) (h : decode p = some r) : encode r = some p := by
  obtain ⟨⟨kind, fields, rfl⟩, ht⟩ := decode_thaw hp h
  rw [encode, ht, h]
  rfl

theorem decode_encode (h : encode r = some p) : p = thaw r ∧ ∃ s, decode p = some s := by
  cases r with
  | record kind fields =>
    rw [encode] at h
    obtain ⟨s, hs, rfl⟩ := Option.map_eq_some_iff.1 h
    exact ⟨rfl, s, hs⟩
  | _ => cases h

mutual

/-- What is thawed is a value. -/
theorem wf_thaw : ∀ v, Wf v → Wf (thaw v)
  | .none, _ | .bool _, _ | .int _, _ | .float _, _ | .str _, _ | .other, _ => by simp [thaw, Wf]
  | .list items, h => by
    rw [Wf] at h
    rw [thaw, Wf]
    exact wf_thawItems items h
  | .tuple items, h => by
    rw [Wf] at h
    rw [thaw, Wf]
    exact wf_thawItems items h
  | .dict members, h => by
    rw [Wf] at h
    rw [thaw, Wf]
    exact ⟨sorted_thaw h.1, wf_thawMembers members h.2⟩
  | .proxy members, h => by
    rw [Wf] at h
    rw [thaw, Wf]
    exact ⟨sorted_thaw h.1, wf_thawMembers members h.2⟩
  | .record kind fields, h => by
    rw [Wf] at h
    obtain ⟨hnames, hw⟩ := h
    have hw' := wf_thawMembers fields hw
    rw [thaw, Wf]
    refine ⟨ordered_sorted ?_, wfMembers_iff.2 fun m hm => ?_⟩
    · rw [thawMembers_eq, List.map_cons, List.map_map]
      have hmap : fields.map (Prod.fst ∘ fun m : Text × Py => (m.1, thaw m.2)) = kind.names := hnames
      rw [hmap]
      exact kind_names kind
    · rcases List.mem_cons.1 (mem_ordered.1 hm) with rfl | hm
      · simp [Wf]
      · exact wfMembers_iff.1 hw' m hm

theorem wf_thawItems : ∀ vs, WfItems vs → WfItems (thawItems vs)
  | [], _ => trivial
  | v :: vs, h => by
    rw [WfItems] at h
    rw [thawItems, WfItems]
    exact ⟨wf_thaw v h.1, wf_thawItems vs h.2⟩

theorem wf_thawMembers : ∀ ms, WfMembers ms → WfMembers (thawMembers ms)
  | [], _ => trivial
  | (k, v) :: ms, h => by
    rw [WfMembers] at h
    rw [thawMembers, WfMembers]
    exact ⟨wf_thaw v h.1, wf_thawMembers ms h.2⟩

end

/-! ## Texts -/

mutual

/-- A text that parses so is one of a value: its members stand in any order. -/
def Spells : Doc → Py → Prop
  | .null, v => v = .none
  | .bool b, v => v = .bool b
  | .int i, v => v = .int i
  | .float q, v => v = .float q
  | .constant, _ => False
  | .str s, v => v = .str s
  | .arr items, v => ∃ vs, v = .list vs ∧ SpellsItems items vs
  | .obj members, v => ∃ ms ms', v = .dict ms ∧ ms'.Perm ms ∧ SpellsMembers members ms'

def SpellsItems : List Doc → List Py → Prop
  | [], vs => vs = []
  | d :: ds, vs => ∃ w ws, vs = w :: ws ∧ Spells d w ∧ SpellsItems ds ws

def SpellsMembers : List (Text × Doc) → List (Text × Py) → Prop
  | [], ms => ms = []
  | (k, d) :: ds, ms => ∃ w ws, ms = (k, w) :: ws ∧ Spells d w ∧ SpellsMembers ds ws

end

mutual

/-- **What is built of the text of a value is the value.** -/
theorem build_spells : ∀ d v, Wf v → Spells d v → build d = some v
  | .null, v, _, h | .bool _, v, _, h | .int _, v, _, h | .float _, v, _, h | .str _, v, _, h => by
    rw [Spells] at h
    rw [build, h]
  | .constant, v, _, h => by
    rw [Spells] at h
    exact h.elim
  | .arr items, v, hw, h => by
    rw [Spells] at h
    obtain ⟨vs, rfl, hvs⟩ := h
    rw [Wf] at hw
    rw [build, build_spellsItems items vs hw hvs]
    rfl
  | .obj members, v, hw, h => by
    rw [Spells] at h
    obtain ⟨ms, ms', rfl, hperm, hms⟩ := h
    rw [Wf] at hw
    obtain ⟨hs, hw⟩ := hw
    have hw' : WfMembers ms' := wfMembers_iff.2 fun m hm => wfMembers_iff.1 hw m (hperm.mem_iff.1 hm)
    have hnodup : (ms'.map Prod.fst).Nodup := (hperm.map Prod.fst).nodup_iff.2 hs.nodup
    have hordered : ordered ms' = ms :=
      Sorted.ext (ordered_sorted hnodup) hs fun m => by rw [mem_ordered, hperm.mem_iff]
    rw [build, build_spellsMembers members ms' hw' hms, Option.bind_some, if_pos hnodup, hordered]

theorem build_spellsItems : ∀ ds vs, WfItems vs → SpellsItems ds vs → buildItems ds = some vs
  | [], vs, _, h => by
    rw [SpellsItems] at h
    rw [buildItems, h]
  | d :: ds, vs, hw, h => by
    rw [SpellsItems] at h
    obtain ⟨w, ws, rfl, hd, hds⟩ := h
    rw [WfItems] at hw
    rw [buildItems, build_spells d w hw.1 hd, build_spellsItems ds ws hw.2 hds]
    rfl

theorem build_spellsMembers : ∀ ds ms, WfMembers ms → SpellsMembers ds ms → buildMembers ds = some ms
  | [], ms, _, h => by
    rw [SpellsMembers] at h
    rw [buildMembers, h]
  | (k, d) :: ds, ms, hw, h => by
    rw [SpellsMembers] at h
    obtain ⟨w, ws, rfl, hd, hds⟩ := h
    rw [WfMembers] at hw
    rw [buildMembers, build_spells d w hw.1 hd, build_spellsMembers ds ws hw.2 hds]
    rfl

end

mutual

/-- What is built of a text is a value that it spells. -/
theorem spells_build : ∀ d v, build d = some v → Spells d v
  | .null, v, h | .bool _, v, h | .int _, v, h | .float _, v, h | .str _, v, h => by
    rw [build] at h
    rw [Spells, Option.some.inj h]
  | .constant, v, h => by
    rw [build] at h
    cases h
  | .arr items, v, h => by
    rw [build] at h
    obtain ⟨vs, hvs, rfl⟩ := Option.map_eq_some_iff.1 h
    rw [Spells]
    exact ⟨vs, rfl, spells_buildItems items vs hvs⟩
  | .obj members, v, h => by
    rw [build] at h
    obtain ⟨ms, hms, h⟩ := Option.bind_eq_some_iff.1 h
    split at h
    · rw [Spells, ← Option.some.inj h]
      exact ⟨ordered ms, ms, rfl, (List.perm_insertionSort _ ms).symm, spells_buildMembers members ms hms⟩
    · cases h

theorem spells_buildItems : ∀ ds vs, buildItems ds = some vs → SpellsItems ds vs
  | [], vs, h => by
    rw [buildItems] at h
    rw [SpellsItems, Option.some.inj h]
  | d :: ds, vs, h => by
    rw [buildItems] at h
    obtain ⟨w, hw, h⟩ := Option.bind_eq_some_iff.1 h
    obtain ⟨ws, hws, rfl⟩ := Option.map_eq_some_iff.1 h
    rw [SpellsItems]
    exact ⟨w, ws, rfl, spells_build d w hw, spells_buildItems ds ws hws⟩

theorem spells_buildMembers : ∀ ds ms, buildMembers ds = some ms → SpellsMembers ds ms
  | [], ms, h => by
    rw [buildMembers] at h
    rw [SpellsMembers, Option.some.inj h]
  | (k, d) :: ds, ms, h => by
    rw [buildMembers] at h
    obtain ⟨w, hw, h⟩ := Option.bind_eq_some_iff.1 h
    obtain ⟨ws, hws, rfl⟩ := Option.map_eq_some_iff.1 h
    rw [SpellsMembers]
    exact ⟨w, ws, rfl, spells_build d w hw, spells_buildMembers ds ws hws⟩

end

/-- A record is loaded from the text of a payload as it is decoded from the payload. -/
theorem loads_spells {parse : Text → Option Doc} {text : Text} {d : Doc} (hp : Wf p) (hparse : parse text = some d)
    (hd : Spells d p) : loads parse text = decode p := by
  rw [loads, hparse, Option.bind_some, build_spells d p hp hd, Option.bind_some]

/-- **Decoding and encoding are inverse**, and a text that parses as the JSON text of a payload is loaded as the
payload is decoded. -/
theorem round_trip (p r : Value) :
    (∀ s, decode p.val = some s → encode s = some p.val) ∧
      ∀ q, encode r.val = some q → (∃ s, decode q = some s ∧ encode s = some q) ∧
        ∀ (parse : Text → Option Doc) (text : Text) (d : Doc), parse text = some d → Spells d q →
          loads parse text = decode q := by
  refine ⟨fun s hs => encode_decode p.wf hs, fun q hq => ?_⟩
  obtain ⟨rfl, s, hs⟩ := decode_encode hq
  have hwf := wf_thaw r.val r.wf
  exact ⟨⟨s, hs, encode_decode hwf hs⟩, fun parse text d hparse hd => loads_spells hwf hparse hd⟩

namespace Example

/-- The members of a payload of an error. -/
def failure : List (Text × Py) :=
  [("kind".toList, .str "error".toList), ("version".toList, .int 1), ("code".toList, .str "mcp.busy".toList),
    ("message".toList, .str "busy".toList), ("retryable".toList, .bool true)]

/-- The members of a payload of a result that carries the error. -/
def result : List (Text × Py) :=
  [("kind".toList, .str "result".toList), ("version".toList, .int 1), ("result_id".toList, .str "r1".toList),
    ("command_id".toList, .str "c1".toList), ("correlation_id".toList, .str "k1".toList),
    ("status".toList, .str "failed".toList),
    ("output".toList, .dict [("items".toList, .list [.int 1, .float (1 / 2)])]), ("error".toList, .dict (ordered failure))]

/-- The text of the payload, as it is parsed. -/
def document : Doc :=
  .obj [("kind".toList, .str "result".toList), ("version".toList, .int 1), ("result_id".toList, .str "r1".toList),
    ("command_id".toList, .str "c1".toList), ("correlation_id".toList, .str "k1".toList),
    ("status".toList, .str "failed".toList),
    ("output".toList, .obj [("items".toList, .arr [.int 1, .float (1 / 2)])]),
    ("error".toList, .obj [("kind".toList, .str "error".toList), ("version".toList, .int 1),
      ("code".toList, .str "mcp.busy".toList), ("message".toList, .str "busy".toList), ("retryable".toList, .bool true)])]

/-- The text. -/
def text : Text :=
  ("\x7b\"kind\": \"result\", \"version\": 1, \"result_id\": \"r1\", \"command_id\": \"c1\", \"correlation_id\": \"k1\", " ++
    "\"status\": \"failed\", \"output\": \x7b\"items\": [1, 0.5]\x7d, \"error\": \x7b\"kind\": \"error\", \"version\": 1, " ++
    "\"code\": \"mcp.busy\", \"message\": \"busy\", \"retryable\": true\x7d\x7d").toList

/-- What parses this one text. -/
def parse (t : Text) : Option Doc := if t = text then some document else none

theorem wf_failure : Wf (.dict (ordered failure)) := by
  rw [Wf]
  refine ⟨ordered_sorted (by decide), wfMembers_iff.2 fun m hm => ?_⟩
  have hm' := mem_ordered.1 hm
  simp only [failure, List.mem_cons, List.not_mem_nil, or_false] at hm'
  rcases hm' with rfl | rfl | rfl | rfl | rfl <;> simp [Wf]

/-- The payload. -/
def payload : Value where
  val := .dict (ordered result)
  wf := by
    rw [Wf]
    refine ⟨ordered_sorted (by decide), wfMembers_iff.2 fun m hm => ?_⟩
    have hm' := mem_ordered.1 hm
    simp only [result, List.mem_cons, List.not_mem_nil, or_false] at hm'
    rcases hm' with rfl | rfl | rfl | rfl | rfl | rfl | rfl | rfl
    all_goals first | exact wf_failure | simp [Wf, WfMembers, WfItems, Sorted]

theorem spells : Spells document payload.val := spells_build _ _ rfl

/-- A record of the payload. -/
def record : Value where
  val := .record .result [("version".toList, .int 1), ("result_id".toList, .str "r1".toList),
    ("command_id".toList, .str "c1".toList), ("correlation_id".toList, .str "k1".toList),
    ("status".toList, .str "failed".toList),
    ("output".toList, .proxy [("items".toList, .tuple [.int 1, .float (1 / 2)])]),
    ("error".toList, .record .error [("version".toList, .int 1), ("code".toList, .str "mcp.busy".toList),
      ("message".toList, .str "busy".toList), ("retryable".toList, .bool true)])]
  wf := by
    refine ⟨rfl, ?_⟩
    simp only [WfMembers, WfItems, Wf, Sorted, true_and, and_true, List.pairwise_singleton]
    exact rfl

theorem decodes : ∃ s, decode payload.val = some s := Option.isSome_iff_exists.1 (by decide +kernel)

theorem encodes : encode record.val = some payload.val := by
  obtain ⟨s, hs⟩ := decodes
  have hthaw : thaw record.val = payload.val := rfl
  have hencode : encode record.val = (decode (thaw record.val)).map fun _ => thaw record.val := rfl
  rw [hencode, hthaw, hs]
  rfl

end Example

/-- The text is loaded as the record that its payload is decoded to. -/
theorem round_trip_failed : (∃ s, decode Example.payload.val = some s ∧ encode s = some Example.payload.val) ∧
    loads Example.parse Example.text = decode Example.payload.val := by
  obtain ⟨hdecode, hencode⟩ := round_trip Example.payload Example.record
  obtain ⟨s, hs⟩ := Example.decodes
  obtain ⟨-, hloads⟩ := hencode _ Example.encodes
  exact ⟨⟨s, hs, hdecode s hs⟩, hloads Example.parse Example.text Example.document (if_pos rfl) Example.spells⟩

end Codec

end Arhugula
