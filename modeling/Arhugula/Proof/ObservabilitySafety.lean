import Mathlib.Tactic.Cases
import Arhugula.Sequence.Traverse
import Arhugula.Spec.Observability

/-!
# What the detail section gives away

`isPublicValue` finds every declaration in a value that is not `public`, at any depth (`isPublicValue_iff`). The loop of
`detailed` looks at the entries that are declared public only, and at the category and the value of each
(`visible_public`): sequences of diagnostics that agree on these have one section, and where a category or a value nests
a declaration that is not `public` the section is unreadable (`section_iff`).

Another member of a public entry is not rendered, so what it declares is not looked at.
-/

namespace Arhugula

namespace Observability

open Strings Codec

variable {p : Projection} {j : Journal} {v w : Py} {vs ds : List Py} {ms entry : List (Text × Py)}
  {entries before after : List (List (Text × Py))} {key : Text}

/-! ## Declarations -/

/-- A mapping declares a sensitivity, and it is not `public`. -/
def Declares (members : List (Text × Py)) : Prop :=
  ∃ v, get members "sensitivity".toList = some v ∧ v ≠ .str "public".toList

/-- A value has a mapping in it, at any depth, that declares a sensitivity other than `public`. -/
inductive NonPublic : Py → Prop where
  | declared {v : Py} {members : List (Text × Py)} : mapping v = some members → Declares members → NonPublic v
  | member {v : Py} {members : List (Text × Py)} {m : Text × Py} :
      mapping v = some members → m ∈ members → NonPublic m.2 → NonPublic v
  | item {v : Py} {items : List Py} {w : Py} : v = .list items ∨ v = .tuple items → w ∈ items → NonPublic w → NonPublic v

theorem isWord_iff {o : Option Py} {word : String} : isWord o word = true ↔ o = some (.str word.toList) := by
  unfold isWord
  split
  · simp
  · rename_i hne
    constructor
    · intro h
      cases h
    · intro h
      exact absurd h (hne _)

theorem isDeclaredPublic_iff : isDeclaredPublic ms = false ↔ Declares ms := by
  unfold isDeclaredPublic Declares
  rw [Bool.or_eq_false_iff, ← Bool.not_eq_true, ← Bool.not_eq_true, isWord_iff]
  cases hget : get ms "sensitivity".toList with
  | none => simp
  | some v => simp

theorem arePublicItems_iff : arePublicItems vs = false ↔ ∃ v ∈ vs, isPublicValue v = false := by
  induction vs with
  | nil => simp [arePublicItems]
  | cons v vs ih =>
    rw [arePublicItems, Bool.and_eq_false_iff, ih]
    simp only [List.mem_cons, exists_eq_or_imp]

theorem arePublicMembers_iff : arePublicMembers ms = false ↔ ∃ m ∈ ms, isPublicValue m.2 = false := by
  induction ms with
  | nil => simp [arePublicMembers]
  | cons m ms ih =>
    rw [arePublicMembers, Bool.and_eq_false_iff, ih]
    simp only [List.mem_cons, exists_eq_or_imp]

/-- A mapping that is not public declares it, or has a member that is not. -/
theorem public_mapping (hv : mapping v = some ms) :
    isPublicValue v = false ↔ Declares ms ∨ ∃ m ∈ ms, isPublicValue m.2 = false := by
  have hcase : isPublicValue v = (isDeclaredPublic ms && arePublicMembers ms) := by
    cases v <;> cases hv <;> rfl
  rw [hcase, Bool.and_eq_false_iff, isDeclaredPublic_iff, arePublicMembers_iff]

theorem public_items (hv : v = .list vs ∨ v = .tuple vs) :
    isPublicValue v = false ↔ ∃ w ∈ vs, isPublicValue w = false := by
  have hcase : isPublicValue v = arePublicItems vs := by
    obtain rfl | rfl := hv <;> rfl
  rw [hcase, arePublicItems_iff]

mutual

theorem nonPublic_of : ∀ v, isPublicValue v = false → NonPublic v
  | .dict members, h => by
    obtain hd | ⟨m, hm, hn⟩ := (public_mapping rfl).1 h
    · exact .declared rfl hd
    · exact .member rfl hm (nonPublic_of_members members m hm hn)
  | .proxy members, h => by
    obtain hd | ⟨m, hm, hn⟩ := (public_mapping rfl).1 h
    · exact .declared rfl hd
    · exact .member rfl hm (nonPublic_of_members members m hm hn)
  | .list items, h => by
    obtain ⟨w, hw, hn⟩ := (public_items (.inl rfl)).1 h
    exact .item (.inl rfl) hw (nonPublic_of_items items w hw hn)
  | .tuple items, h => by
    obtain ⟨w, hw, hn⟩ := (public_items (.inr rfl)).1 h
    exact .item (.inr rfl) hw (nonPublic_of_items items w hw hn)
  | .none, h | .bool _, h | .int _, h | .float _, h | .str _, h | .record _ _, h | .other, h => by cases h

theorem nonPublic_of_items : ∀ vs : List Py, ∀ w ∈ vs, isPublicValue w = false → NonPublic w
  | [], _, hw, _ => by cases hw
  | v :: vs, w, hw, hn => by
    rcases List.mem_cons.1 hw with hfirst | hrest
    · rw [hfirst] at hn ⊢
      exact nonPublic_of v hn
    · exact nonPublic_of_items vs w hrest hn

theorem nonPublic_of_members : ∀ ms : List (Text × Py), ∀ m ∈ ms, isPublicValue m.2 = false → NonPublic m.2
  | [], _, hm, _ => by cases hm
  | (k, v) :: ms, m, hm, hn => by
    rcases List.mem_cons.1 hm with hfirst | hrest
    · rw [hfirst] at hn ⊢
      exact nonPublic_of v hn
    · exact nonPublic_of_members ms m hrest hn

end

/-- **The check finds every declaration that is not `public`.** -/
theorem isPublicValue_iff : isPublicValue v = false ↔ NonPublic v := by
  refine ⟨nonPublic_of v, fun h => ?_⟩
  induction h with
  | declared hv hd => exact (public_mapping hv).2 (.inl hd)
  | member hv hm _ ih => exact (public_mapping hv).2 (.inr ⟨_, hm, ih⟩)
  | item hv hw _ ih => exact (public_items hv).2 ⟨_, hw, ih⟩

/-! ## Copies -/

theorem detachItems_eq : detachItems vs = vs.map detach := by
  induction vs with
  | nil => rfl
  | cons v vs ih => rw [detachItems, ih, List.map_cons]

theorem detachMembers_eq : detachMembers ms = ms.map fun m => (m.1, detach m.2) := by
  induction ms with
  | nil => rfl
  | cons m ms ih => rw [detachMembers, ih, List.map_cons]

theorem get_detach : get (detachMembers ms) key = (get ms key).map detach := by
  unfold Codec.get
  rw [detachMembers_eq, List.find?_map, Option.map_map, Option.map_map]
  rfl

/-- Only a string is copied to a string. -/
theorem detach_str {s : Text} (h : detach v = .str s) : v = .str s := by
  cases v with
  | str t => exact h
  | none | bool | int | float | list | dict | tuple | proxy | record | other => cases h

theorem detach_mapping (hv : mapping v = some ms) : mapping (detach v) = some (detachMembers ms) := by
  cases v <;> cases hv <;> rfl

/-- A copy declares what the value does. -/
theorem nonPublic_detach (h : NonPublic v) : NonPublic (detach v) := by
  induction h with
  | declared hv hd =>
    obtain ⟨s, hs, hne⟩ := hd
    refine .declared (detach_mapping hv) ⟨detach s, by rw [get_detach, hs]; rfl, ?_⟩
    intro heq
    exact hne (detach_str heq)
  | @member v members m hv hm _ ih =>
    refine .member (detach_mapping hv) (m := (m.1, detach m.2)) ?_ ih
    rw [detachMembers_eq]
    exact List.mem_map_of_mem hm
  | @item v items w hv hw _ ih =>
    have hcopy : detach v = .list (detachItems items) := by
      obtain rfl | rfl := hv <;> rfl
    refine .item (.inl hcopy) ?_ ih
    rw [detachItems_eq]
    exact List.mem_map_of_mem hw

/-! ## Entries -/

/-- The mappings of a sequence of diagnostics. -/
def entriesOf (diagnostics : Py) : Option (List (List (Text × Py))) :=
  (iterate diagnostics).bind fun items => items.mapM mapping

/-- The entries that are declared public. -/
def publicEntries (entries : List (List (Text × Py))) : List (List (Text × Py)) :=
  entries.filter fun entry => isWord (get entry "sensitivity".toList) "public"

/-- The category or the value of an entry nests a declaration that is not `public`. -/
def Nests (entry : List (Text × Py)) : Prop :=
  ∃ key v, (key = "category" ∨ key = "value") ∧ get entry key.toList = some v ∧ NonPublic v

/-- The loop renders the entries that are declared public, and looks at no other. -/
theorem visible_public (h : ds.mapM mapping = some entries) :
    visible false ds = (publicEntries entries).mapM rendered := by
  induction ds generalizing entries with
  | nil =>
    cases h
    rfl
  | cons d ds ih =>
    rw [List.mapM_cons] at h
    simp only [Option.bind_eq_bind, Option.bind_eq_some_iff, Option.pure_def, Option.some.injEq] at h
    obtain ⟨entry, hd, rest, hrest, rfl⟩ := h
    have hshown : isShown false (get entry "sensitivity".toList) = isWord (get entry "sensitivity".toList) "public" := by
      rw [isShown, Bool.and_false, Bool.or_false]
    rw [visible, hd, publicEntries, List.filter_cons, ih hrest]
    simp only [Option.bind_eq_bind, Option.bind_some, hshown]
    by_cases hpublic : isWord (get entry "sensitivity".toList) "public" = true
    · rw [if_pos hpublic, if_pos hpublic, List.mapM_cons]
      rfl
    · rw [if_neg hpublic, if_neg hpublic]
      rfl

/-- What `detailed` makes of a sequence of mappings. -/
theorem detailed_public {diagnostics : Py} (h : entriesOf diagnostics = some entries) :
    detailed p diagnostics false = ((publicEntries entries).mapM rendered).bind fun shown => (compact p).bind fun state =>
      some (.dict [("diagnostics".toList, .list shown), ("state".toList, state)]) := by
  obtain ⟨items, hitems, hentries⟩ := Option.bind_eq_some_iff.1 h
  rw [detailed, hitems, Option.bind_eq_bind, Option.bind_some, visible_public hentries]
  rfl

/-- An entry with a nested declaration is rendered with it, or raises. -/
theorem nonPublic_rendered (hn : Nests entry) (h : rendered entry = some v) : NonPublic v := by
  unfold rendered at h
  simp only [Option.bind_eq_bind, Option.bind_eq_some_iff, Option.some.injEq] at h
  obtain ⟨category, hcategory, value, hvalue, rfl⟩ := h
  obtain ⟨key, w, rfl | rfl, hw, hnon⟩ := hn
  · obtain rfl : category = w := Option.some.inj (hcategory.symm.trans hw)
    exact .member rfl (List.mem_cons_self ..) hnon
  · obtain rfl : value = w := Option.some.inj (hvalue.symm.trans hw)
    exact .member rfl (List.mem_cons_of_mem _ (List.mem_cons_self ..)) (nonPublic_detach hnon)

/-- One of the results of a list comes of each of its members. -/
theorem mem_rendered {shown : List Py} (h : entries.mapM rendered = some shown) (he : entry ∈ entries) :
    ∃ v ∈ shown, rendered entry = some v := by
  have hall := Sequence.mapM_some_iff.1 h
  clear h
  induction hall with
  | nil => cases he
  | cons hfirst _ ih =>
    rcases List.mem_cons.1 he with rfl | he
    · exact ⟨_, List.mem_cons_self .., hfirst⟩
    · obtain ⟨v, hv, hr⟩ := ih he
      exact ⟨v, List.mem_cons_of_mem _ hv, hr⟩

/-- A view that shows an entry with a nested declaration is not public. -/
theorem nonPublic_detailed {diagnostics : Py} (h : entriesOf diagnostics = some entries)
    (he : entry ∈ publicEntries entries) (hn : Nests entry) (hd : detailed p diagnostics false = some v) :
    NonPublic v := by
  rw [detailed_public h] at hd
  simp only [Option.bind_eq_some_iff, Option.some.injEq] at hd
  obtain ⟨shown, hshown, state, -, rfl⟩ := hd
  obtain ⟨w, hw, hr⟩ := mem_rendered hshown he
  refine .member rfl (List.mem_cons_self ..) (.item (.inl rfl) hw ?_)
  exact nonPublic_rendered hn hr

/-! ## The section -/

/-- A section is unreadable where the view is not public. -/
theorem section_unreadable {diagnostics : Py} (h : ∀ v, detailed p diagnostics false = some v → NonPublic v) :
    detailSection (.available (some ⟨p, j, diagnostics⟩)) = .unreadable := by
  unfold detailSection sectionOf
  simp only
  cases hfresh : freshness p j with
  | none => rfl
  | some fresh =>
    cases hdetail : detailed p diagnostics false with
    | none => rfl
    | some detail =>
      have hpublic : isPublicValue detail = false := isPublicValue_iff.2 (h detail hdetail)
      simp [hpublic]

/-- **The detail section gives away the public diagnostics only.** Of two sequences that agree on the entries that are
declared public, it is the same; where the category or the value of one of these nests a declaration that is not
`public`, it is unreadable, and holds nothing. -/
theorem section_kept {s t : Py} (hs : entriesOf s = some before) (ht : entriesOf t = some after)
    (hsame : publicEntries before = publicEntries after) :
    detailSection (.available (some ⟨p, j, s⟩)) = detailSection (.available (some ⟨p, j, t⟩)) ∧
      ∀ entry ∈ publicEntries before, Nests entry →
        detailSection (.available (some ⟨p, j, s⟩)) = .unreadable := by
  constructor
  · have hview : detailed p s false = detailed p t false := by
      rw [detailed_public hs, detailed_public ht, hsame]
    unfold detailSection sectionOf
    simp only [hview]
  · intro entry he hn
    exact section_unreadable fun v hv => nonPublic_detailed hs he hn hv

/-- The state of a detail section is what the compact section of the same evidence shows, as fresh. -/
theorem compact_detail {diagnostics : Py} {fresh : Freshness}
    (h : detailSection (.available (some ⟨p, j, diagnostics⟩)) = .available fresh v) :
    ∃ members state, v = .dict members ∧ get members "state".toList = some state ∧
      projectionSection (.available (some ⟨p, j⟩)) = .available fresh state := by
  unfold detailSection sectionOf at h
  simp only at h
  cases hfresh : freshness p j with
  | none =>
    rw [hfresh] at h
    cases h
  | some f =>
    cases hdetail : detailed p diagnostics false with
    | none =>
      rw [hfresh, hdetail] at h
      cases h
    | some detail =>
      rw [hfresh, hdetail] at h
      unfold detailed at hdetail
      simp only [Option.bind_eq_bind, Option.bind_eq_some_iff, Option.some.injEq] at hdetail
      obtain ⟨items, -, shown, -, state, hstate, rfl⟩ := hdetail
      simp only [Option.bind_eq_bind, Option.bind_some] at h
      split at h
      · cases h
      · simp only [Option.getD_some, Section.available.injEq] at h
        obtain ⟨rfl, rfl⟩ := h
        refine ⟨_, detach state, rfl, rfl, ?_⟩
        unfold projectionSection sectionOf
        simp only [hfresh, hstate, Option.bind_eq_bind, Option.bind_some, Option.getD_some]

/-! ## A member that is not rendered -/

/-- A projection of an empty journal. -/
def blank : Projection where
  cursor := 0
  action := none
  interaction := none
  lane := .none
  provider := none
  activeMode := none
  muted := none
  health := none
  degradedCapabilities := []
  pending := false
  voiceLifecycle := []

/-- An empty journal. -/
def empty : Journal := ⟨fun _ => some []⟩

/-- A mapping that declares itself private. -/
def secret : Py := .dict [("sensitivity".toList, .str "private".toList)]

/-- A public entry whose value is private. -/
def nested : List (Text × Py) :=
  [("category".toList, .str "audio".toList), ("sensitivity".toList, .str "public".toList), ("value".toList, secret)]

/-- A public entry that has a private member beside its value. -/
def noted : List (Text × Py) :=
  [("category".toList, .str "audio".toList), ("note".toList, secret), ("sensitivity".toList, .str "public".toList),
    ("value".toList, .int 1)]

theorem nonPublic_secret : NonPublic secret :=
  .declared rfl ⟨.str "private".toList, rfl, by simp⟩

/-- A list of a public entry and a private one, and a tuple of the public one. -/
theorem section_kept_nested :
    detailSection (.available (some ⟨blank, empty, .list [.dict nested, secret]⟩)) =
        detailSection (.available (some ⟨blank, empty, .tuple [.proxy nested]⟩)) ∧
      detailSection (.available (some ⟨blank, empty, .list [.dict nested, secret]⟩)) = .unreadable := by
  have hkept := section_kept (p := blank) (j := empty) (s := .list [.dict nested, secret])
    (t := .tuple [.proxy nested]) rfl rfl rfl
  exact ⟨hkept.1, hkept.2 nested (List.mem_cons_self ..) ⟨"value", secret, .inr rfl, rfl, nonPublic_secret⟩⟩

/-- A public entry that nests a private declaration in a member that is not rendered: the section shows the entry. -/
theorem note_ignored :
    ¬ ∀ (p : Projection) (j : Journal) (diagnostics : Py) (entries : List (List (Text × Py))),
      entriesOf diagnostics = some entries → ∀ entry ∈ publicEntries entries, NonPublic (.dict entry) →
        detailSection (.available (some ⟨p, j, diagnostics⟩)) = .unreadable := by
  intro hall
  have hpublic : noted ∈ publicEntries [noted] := List.mem_filter.2 ⟨List.mem_singleton.2 rfl, by decide⟩
  have hnote : NonPublic (.dict noted) :=
    .member rfl (List.mem_cons_of_mem _ (List.mem_cons_self ..)) nonPublic_secret
  have hshown : ∃ data, detailSection (.available (some ⟨blank, empty, .list [.dict noted]⟩)) = .available .current data :=
    ⟨_, rfl⟩
  obtain ⟨data, hdata⟩ := hshown
  have hunreadable := hall blank empty (.list [.dict noted]) [noted] rfl noted hpublic hnote
  rw [hdata] at hunreadable
  cases hunreadable

end Observability

end Arhugula
