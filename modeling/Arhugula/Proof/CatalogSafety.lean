import Arhugula.Sequence.Traverse
import Arhugula.Spec.Catalog

/-!
# What the registry publishes

`published_entries` says what a publication makes of the current snapshot and the entries of an inventory: `merge` of
each entry. The entries are in the order of their identifiers, so an inventory that changes nothing is published as
the snapshot that was current.
-/

namespace Arhugula

namespace Catalog

open Strings Codec

variable {h : Host} {calls : ℕ → Call} {r r' : Registry} {es prev : List Entry} {e old : Entry} {id : Text}

/-! ## Entries -/

/-- The identifiers stand in order, and differ. -/
def Ordered (entries : List Entry) : Prop := (entries.map Entry.identifier).Pairwise (· < ·)

theorem discoverRecords_nodup {source : Text} {required : List Text} {records : List Py} {items found : List Found}
    (hi : (items.map Found.identifier).Nodup) (h : discoverRecords source required records items = .ok found) :
    (found.map Found.identifier).Nodup := by
  induction records generalizing items with
  | nil =>
    cases h
    exact hi
  | cons record records ih =>
    rw [discoverRecords] at h
    split at h
    · cases h
    split at h
    · cases h
    · rename_i hnew
      refine ih ?_ h
      rw [List.map_append, List.nodup_append]
      refine ⟨hi, List.nodup_singleton _, fun a ha b hb hab => hnew ?_⟩
      have hb' : b = idOf record := by simpa using hb
      rwa [← hb', ← hab]

theorem discoverSources_nodup {fixture : List (Text × Py)} {ss : List (Text × List Text)} {items found : List Found}
    (hi : (items.map Found.identifier).Nodup) (h : discoverSources fixture ss items = .ok found) :
    (found.map Found.identifier).Nodup := by
  induction ss generalizing items with
  | nil =>
    cases h
    exact hi
  | cons s ss ih =>
    obtain ⟨source, required⟩ := s
    rw [discoverSources] at h
    split at h
    · cases hr : discoverRecords source required ‹_› items with
      | error e =>
        rw [hr] at h
        cases h
      | ok items' =>
        rw [hr] at h
        exact ih (discoverRecords_nodup hi hr) h
    · cases h

/-- What is discovered stands in the order of its identifiers, which differ. -/
theorem discover_ordered {fixture : Py} {d : Discovery} (h : discover fixture = .ok d) :
    (d.capabilities.map Found.identifier).Pairwise (· < ·) := by
  unfold discover at h
  split at h
  case h_2 => cases h
  rename_i ms
  dsimp only at h
  split at h
  · cases h
  split at h
  · cases h
  split at h
  case h_2 => cases h
  split at h
  case isFalse => cases h
  cases hs : discoverSources ms sources [] with
  | error e =>
    rw [hs] at h
    cases h
  | ok items =>
    rw [hs] at h
    cases h
    have hnil : (([] : List Found).map Found.identifier).Nodup := List.nodup_nil
    have hnodup := discoverSources_nodup hnil hs
    have hperm := List.perm_insertionSort (fun a b : Found => a.identifier ≤ b.identifier) items
    have hle := List.pairwise_insertionSort (fun a b : Found => a.identifier ≤ b.identifier) items
    have hne := (hperm.map Found.identifier).nodup_iff.2 hnodup
    unfold List.Nodup at hne
    rw [List.pairwise_map] at hne ⊢
    exact (hle.and hne).imp fun hab => lt_of_le_of_ne hab.1 hab.2

theorem mapM_identifier {rows : List Row} {items : List Found} (h : items.mapM (entryOf rows) = .ok es) :
    es.map Entry.identifier = items.map Found.identifier := by
  have hall := Sequence.mapM_ok_iff.1 h
  symm
  rw [← List.forall₂_eq_eq_eq, List.forall₂_map_left_iff, List.forall₂_map_right_iff]
  refine hall.imp fun item e he => ?_
  unfold entryOf at he
  split at he
  · cases he
    rfl
  · cases he

/-- **The entries of an inventory stand in the order of their identifiers.** -/
theorem entriesOf_ordered {inventory : Given} (h' : entriesOf h inventory = .ok es) : Ordered es := by
  unfold entriesOf at h'
  split at h'
  · cases h'
  split at h'
  · cases h'
  cases hr : readItems h ‹_› [] with
  | error c =>
    rw [hr] at h'
    cases h'
  | ok rows =>
    rw [hr] at h'
    dsimp only [bind, Except.bind] at h'
    split at h'
    · cases h'
    · rename_i frozen hd
      unfold Ordered
      rw [mapM_identifier h']
      exact discover_ordered hd

theorem Ordered.nodup (ho : Ordered es) : (es.map Entry.identifier).Nodup := ho.imp fun hlt => ne_of_lt hlt

/-! ## Lookup -/

/-- What is looked up is the entry of that identifier. -/
theorem lookup_iff (ho : Ordered es) : lookup es id = some e ↔ e ∈ es ∧ e.identifier = id := by
  unfold lookup
  constructor
  · intro hf
    have hid : e.identifier = id := by simpa using List.find?_some hf
    exact ⟨List.mem_reverse.1 (List.mem_of_find?_eq_some hf), hid⟩
  · rintro ⟨he, hid⟩
    cases hf : es.reverse.find? fun e => e.identifier = id with
    | none => exact absurd hid (by simpa using List.find?_eq_none.1 hf e (List.mem_reverse.2 he))
    | some e' =>
      have hid' : e'.identifier = id := by simpa using List.find?_some hf
      have he' := List.mem_reverse.1 (List.mem_of_find?_eq_some hf)
      rw [List.inj_on_of_nodup_map ho.nodup he' he (hid'.trans hid.symm)]

theorem lookup_none : lookup es id = none ↔ id ∉ keys es := by
  unfold lookup keys
  simp [List.find?_eq_none]

theorem lookup_map {f : Entry → Entry} (hf : ∀ e, e ∈ es → (f e).identifier = e.identifier) :
    lookup (es.map f) id = (lookup es id).map f := by
  unfold lookup
  rw [← List.map_reverse, List.find?_map]
  refine congrArg (Option.map f) ?_
  have hrev : ∀ e ∈ es.reverse, (f e).identifier = e.identifier := fun e he => hf e (List.mem_reverse.1 he)
  generalize es.reverse = l at hrev
  induction l with
  | nil => rfl
  | cons e l ih =>
    have he := hrev e List.mem_cons_self
    rw [List.find?_cons, List.find?_cons, Function.comp_apply, he, ih fun e' he' => hrev e' (List.mem_cons_of_mem _ he')]

/-- The fingerprint of an identifier. -/
def fingerprintAt (s : Snapshot) (id : Text) : Option Text := (lookup s.entries id).map Entry.fingerprint

/-- Some entry was added, changed or removed. -/
def Revised (s t : Snapshot) : Prop := ∃ id, fingerprintAt s id ≠ fingerprintAt t id

/-! ## Candidates -/

theorem mem_sorted {ts : List Text} : id ∈ sorted ts ↔ id ∈ ts := (List.perm_insertionSort _ ts).mem_iff

theorem mem_added : id ∈ (diffOf prev es).added ↔ id ∈ keys es ∧ id ∉ keys prev := by
  simp [diffOf, mem_sorted]

theorem mem_changed : id ∈ (diffOf prev es).changed ↔ (id ∈ keys es ∧ id ∈ keys prev) ∧ isChanged prev es id = true := by
  simp only [diffOf, mem_sorted, List.mem_filter, decide_eq_true_eq]

theorem mem_removed : id ∈ (diffOf prev es).removed ↔ id ∈ keys prev ∧ id ∉ keys es := by
  simp [diffOf, mem_sorted]

theorem mem_unchanged :
    id ∈ (diffOf prev es).unchanged ↔ (id ∈ keys es ∧ id ∈ keys prev) ∧ isChanged prev es id = false := by
  have hmem : id ∈ (diffOf prev es).unchanged ↔
      (id ∈ keys es ∧ id ∈ keys prev) ∧ id ∉ (diffOf prev es).changed := by
    simp only [diffOf, mem_sorted, List.mem_filter, decide_eq_true_eq]
  rw [hmem, mem_changed]
  constructor
  · rintro ⟨hk, hc⟩
    exact ⟨hk, by simpa [hk] using hc⟩
  · rintro ⟨hk, hc⟩
    exact ⟨hk, by simp [hc]⟩

/-- What a publication makes of an entry that was proposed. -/
def merge (prev : List Entry) (e : Entry) : Entry :=
  match lookup prev e.identifier with
  | some old => if old.fingerprint = e.fingerprint then old else { e with reviewed := true }
  | none => { e with reviewed := true }

theorem lookup_identifier (hl : lookup es id = some e) : e.identifier = id := by
  unfold lookup at hl
  simpa using List.find?_some hl

theorem merge_identifier : (merge prev e).identifier = e.identifier := by
  unfold merge
  split
  · rename_i old hl
    split
    · exact lookup_identifier hl
    · rfl
  · rfl

theorem merge_fingerprint : (merge prev e).fingerprint = e.fingerprint := by
  unfold merge
  split
  · split
    · rename_i heq
      exact heq
    · rfl
  · rfl

/-- **What is published of a candidate** are the entries that were proposed, merged with those that are current. -/
theorem published_entries {current : Snapshot} (ho : Ordered es) :
    (published (candidateOf current es)).entries = es.map (merge current.entries) := by
  have hentries : (published (candidateOf current es)).entries = (es.map fun e =>
      if e.identifier ∈ (diffOf current.entries es).unchanged then (lookup current.entries e.identifier).getD e
      else e).map fun e =>
        if e.identifier ∈ (diffOf current.entries es).added ++ (diffOf current.entries es).changed then
          { e with reviewed := true } else e := rfl
  rw [hentries, List.map_map]
  refine List.map_congr_left fun e he => ?_
  have hself : lookup es e.identifier = some e := (lookup_iff ho).2 ⟨he, rfl⟩
  have hkey : e.identifier ∈ keys es := by
    by_contra hn
    rw [lookup_none.2 hn] at hself
    cases hself
  unfold merge
  cases hl : lookup current.entries e.identifier with
  | none =>
    have hn : e.identifier ∉ keys current.entries := lookup_none.1 hl
    have hu : e.identifier ∉ (diffOf current.entries es).unchanged := fun hu => hn (mem_unchanged.1 hu).1.2
    have ha : e.identifier ∈ (diffOf current.entries es).added := mem_added.2 ⟨hkey, hn⟩
    simp only [Function.comp_apply, if_neg hu, if_pos (List.mem_append_left _ ha)]
  | some old =>
    have hk : e.identifier ∈ keys current.entries := by
      by_contra hn
      rw [lookup_none.2 hn] at hl
      cases hl
    have hold : old.identifier = e.identifier := lookup_identifier hl
    have hadd : e.identifier ∉ (diffOf current.entries es).added := fun ha => (mem_added.1 ha).2 hk
    have hchanged : isChanged current.entries es e.identifier = true ↔ old.fingerprint ≠ e.fingerprint := by
      simp [isChanged, hl, hself]
    by_cases hf : old.fingerprint = e.fingerprint
    · have hc : isChanged current.entries es e.identifier = false := by
        cases hb : isChanged current.entries es e.identifier with
        | false => rfl
        | true => exact absurd hf (hchanged.1 hb)
      have hu : e.identifier ∈ (diffOf current.entries es).unchanged := mem_unchanged.2 ⟨⟨hkey, hk⟩, hc⟩
      have hno : old.identifier ∉ (diffOf current.entries es).added ++ (diffOf current.entries es).changed := by
        rw [hold, List.mem_append]
        rintro (ha | hch)
        · exact hadd ha
        · rw [(mem_changed.1 hch).2] at hc
          cases hc
      simp only [Function.comp_apply, if_pos hu, hl, Option.getD_some, if_neg hno, if_pos hf]
    · have hc := hchanged.2 hf
      have hu : e.identifier ∉ (diffOf current.entries es).unchanged := by
        intro hu
        rw [(mem_unchanged.1 hu).2] at hc
        cases hc
      have hch : e.identifier ∈ (diffOf current.entries es).changed := mem_changed.2 ⟨⟨hkey, hk⟩, hc⟩
      simp only [Function.comp_apply, if_neg hu, if_pos (List.mem_append_right _ hch), if_neg hf]

theorem published_lookup {current : Snapshot} (ho : Ordered es) :
    lookup (published (candidateOf current es)).entries id = (lookup es id).map (merge current.entries) := by
  rw [published_entries ho]
  exact lookup_map fun e _ => merge_identifier

theorem published_fingerprint (current : Snapshot) (ho : Ordered es) :
    fingerprintAt (published (candidateOf current es)) id = (lookup es id).map Entry.fingerprint := by
  unfold fingerprintAt
  rw [published_lookup ho, Option.map_map]
  cases lookup es id with
  | none => rfl
  | some e => rw [Option.map_some, Option.map_some, Function.comp_apply, merge_fingerprint]

theorem published_ordered (current : Snapshot) (ho : Ordered es) :
    Ordered (published (candidateOf current es)).entries := by
  unfold Ordered
  rw [published_entries ho, List.map_map]
  have hmap : es.map (Entry.identifier ∘ merge current.entries) = es.map Entry.identifier :=
    List.map_congr_left fun e _ => merge_identifier
  rw [hmap]
  exact ho

/-- The version is raised if some entry was added, changed or removed. -/
theorem published_version (current : Snapshot) (ho : Ordered es) :
    (Revised current (published (candidateOf current es)) →
      (published (candidateOf current es)).version = current.version + 1) ∧
    (¬Revised current (published (candidateOf current es)) →
      (published (candidateOf current es)).version = current.version) := by
  have hversion : (published (candidateOf current es)).version = current.version +
      if !((diffOf current.entries es).added.isEmpty && (diffOf current.entries es).changed.isEmpty &&
        (diffOf current.entries es).removed.isEmpty) then 1 else 0 := rfl
  have hrevised : Revised current (published (candidateOf current es)) ↔ ∃ id,
      id ∈ (diffOf current.entries es).added ∨ id ∈ (diffOf current.entries es).changed ∨
        id ∈ (diffOf current.entries es).removed := by
    unfold Revised
    refine exists_congr fun id => ?_
    rw [published_fingerprint _ ho, mem_added, mem_changed, mem_removed]
    unfold fingerprintAt isChanged
    have hes : id ∈ keys es ↔ (lookup es id).isSome = true := by
      rw [← Option.ne_none_iff_isSome, ne_eq, lookup_none, not_not]
    have hcurrent : id ∈ keys current.entries ↔ (lookup current.entries id).isSome = true := by
      rw [← Option.ne_none_iff_isSome, ne_eq, lookup_none, not_not]
    rw [hes, hcurrent]
    cases lookup es id <;> cases lookup current.entries id <;> simp
  by_cases hr : Revised current (published (candidateOf current es))
  · refine ⟨fun _ => ?_, fun hn => absurd hr hn⟩
    have hsome : ((diffOf current.entries es).added.isEmpty && (diffOf current.entries es).changed.isEmpty &&
        (diffOf current.entries es).removed.isEmpty) = false := by
      obtain ⟨id, hid⟩ := hrevised.1 hr
      rw [← Bool.not_eq_true]
      intro hempty
      simp only [Bool.and_eq_true, List.isEmpty_iff] at hempty
      obtain ⟨⟨ha, hc⟩, hm⟩ := hempty
      rw [ha, hc, hm] at hid
      simp at hid
    rw [hversion, hsome]
    rfl
  · refine ⟨fun h => absurd h hr, fun _ => ?_⟩
    have hnone : ∀ id, ¬(id ∈ (diffOf current.entries es).added ∨ id ∈ (diffOf current.entries es).changed ∨
        id ∈ (diffOf current.entries es).removed) := fun id hid => hr (hrevised.2 ⟨id, hid⟩)
    have ha : (diffOf current.entries es).added = [] := List.eq_nil_iff_forall_not_mem.2 fun id hid => hnone id (.inl hid)
    have hc : (diffOf current.entries es).changed = [] :=
      List.eq_nil_iff_forall_not_mem.2 fun id hid => hnone id (.inr (.inl hid))
    have hm : (diffOf current.entries es).removed = [] :=
      List.eq_nil_iff_forall_not_mem.2 fun id hid => hnone id (.inr (.inr hid))
    rw [hversion, ha, hc, hm]
    simp

/-- **An inventory that changes nothing is published as what is current.** -/
theorem published_eq {current : Snapshot} (hc : Ordered current.entries) (ho : Ordered es)
    (hr : ¬Revised current (published (candidateOf current es))) : published (candidateOf current es) = current := by
  have hversion := (published_version _ ho).2 hr
  have hsame : ∀ id, fingerprintAt current id = (lookup es id).map Entry.fingerprint := by
    intro id
    rw [← published_fingerprint current ho]
    by_contra hne
    exact hr ⟨id, hne⟩
  have hmem : ∀ e, e ∈ (published (candidateOf current es)).entries ↔ e ∈ current.entries := by
    intro e
    have hlookup : lookup (published (candidateOf current es)).entries e.identifier =
        lookup current.entries e.identifier := by
      rw [published_lookup ho]
      have hid := hsame e.identifier
      unfold fingerprintAt at hid
      cases hl : lookup current.entries e.identifier with
      | none =>
        rw [hl, Option.map_none] at hid
        rw [Option.map_eq_none_iff.1 hid.symm]
        rfl
      | some old =>
        rw [hl, Option.map_some] at hid
        obtain ⟨e', he', hf⟩ := Option.map_eq_some_iff.1 hid.symm
        have hmerge : merge current.entries e' = old := by
          unfold merge
          rw [lookup_identifier he', hl]
          exact if_pos hf.symm
        rw [he', Option.map_some, hmerge]
    constructor
    · intro he
      have hnew := (lookup_iff (published_ordered current ho)).2 ⟨he, rfl⟩
      rw [hlookup] at hnew
      exact ((lookup_iff hc).1 hnew).1
    · intro he
      have hold := (lookup_iff hc).2 ⟨he, rfl⟩
      rw [← hlookup] at hold
      exact ((lookup_iff (published_ordered current ho)).1 hold).1
  have hentries : (published (candidateOf current es)).entries = current.entries := by
    have ho' := published_ordered current ho
    have hperm := (List.perm_ext_iff_of_nodup (ho'.nodup.of_map _) (hc.nodup.of_map _)).2 hmem
    unfold Ordered at ho' hc
    rw [List.pairwise_map] at ho' hc
    exact hperm.eq_of_pairwise (fun a b _ _ hab hba => absurd (hab.trans hba) (lt_irrefl _)) ho' hc
  cases hp : published (candidateOf current es) with
  | mk version entries =>
    rw [hp] at hversion hentries
    cases current
    exact congrArg₂ Snapshot.mk hversion hentries

/-! ## Calls -/

/-- What a call returns and what it does to the registry. -/
inductive Effect (r : Registry) (c : Call) : Answer → Registry → Prop where
  | raised (code : String) : Effect r c (.raised code) r
  | proposed (es : List Entry) (ordered : Ordered es) : Effect r c (.proposed r.made (candidateOf r.current es))
      { r with pending := some (r.made, candidateOf r.current es), made := r.made + 1 }
  | published (ref : ℕ) (candidate : Candidate) (ids : List Text) (call : c = .publish (some ref) (.tuple (ids.map .str)))
      (pending : r.pending = some (ref, candidate))
      (reviews : ∀ id, id ∈ ids ↔ id ∈ candidate.diff.added ++ candidate.diff.changed) :
      Effect r c (.published (published candidate)) { r with current := Catalog.published candidate, pending := none }

theorem mapM_textOf {items : List Py} {ids : List Text} (h : items.mapM textOf = some ids) : items = ids.map .str := by
  have hall := Sequence.mapM_some_iff.1 h
  rw [← List.forall₂_eq_eq_eq, List.forall₂_map_right_iff]
  refine hall.imp fun v t ht => ?_
  unfold textOf at ht
  split at ht
  · rw [Option.some.inj ht]
  · cases ht

theorem reviewOf_tuple {reviewedIds : Py} {ids : List Text} (h : reviewOf reviewedIds = some ids) :
    reviewedIds = .tuple (ids.map .str) := by
  unfold reviewOf at h
  split at h
  case h_2 => cases h
  obtain ⟨ids', hm, h⟩ := Option.bind_eq_some_iff.1 h
  split at h
  · rw [mapM_textOf hm, Option.some.inj h]
  · cases h

theorem publish_effect {candidate : Option ℕ} {reviewedIds : Py} {s : Snapshot}
    (h : r.publish candidate reviewedIds = .ok (r', s)) : Effect r (.publish candidate reviewedIds) (.published s) r' := by
  unfold Registry.publish at h
  split at h
  · cases h
  rename_i ids hreview
  split at h
  · cases h
  rename_i ref c hpending
  split at h
  · cases h
  rename_i hsame
  split at h
  · cases h
  rename_i hids
  cases h
  have hcandidate : candidate = some ref := by
    by_contra hne
    exact hsame (by simp [hne])
  have hboth : (∀ id ∈ ids, id ∈ c.diff.added ++ c.diff.changed) ∧
      ∀ id ∈ c.diff.added ++ c.diff.changed, id ∈ ids := by
    simpa only [Bool.not_eq_true, Bool.not_eq_false', Bool.and_eq_true, List.all_eq_true, decide_eq_true_eq] using hids
  refine .published ref c ids ?_ hpending fun id => ⟨hboth.1 id, hboth.2 id⟩
  rw [hcandidate, reviewOf_tuple hreview]

theorem propose_effect {inventory : Given} {expectedVersion : Py} {ref : ℕ} {candidate : Candidate}
    (hp : r.propose h inventory expectedVersion = .ok (r', ref, candidate)) :
    Effect r (.propose inventory expectedVersion) (.proposed ref candidate) r' := by
  unfold Registry.propose at hp
  cases he : entriesOf h inventory with
  | error code =>
    rw [he] at hp
    cases hp
  | ok es =>
    rw [he] at hp
    cases hv : r.requireVersion expectedVersion with
    | error code =>
      dsimp only [bind, Except.bind] at hp
      rw [hv] at hp
      cases hp
    | ok u =>
      dsimp only [bind, Except.bind] at hp
      rw [hv] at hp
      cases hp
      exact .proposed es (entriesOf_ordered he)

/-- **What a call does.** -/
theorem call_effect (r : Registry) (c : Call) : Effect r c (r.call h c).2 (r.call h c).1 := by
  cases c with
  | propose inventory expectedVersion =>
    unfold Registry.call
    dsimp only
    split
    · rename_i hp
      exact propose_effect hp
    · exact .raised _
  | publish candidate reviewedIds =>
    unfold Registry.call
    dsimp only
    split
    · rename_i hp
      exact publish_effect hp
    · exact .raised _

/-! ## Runs -/

/-- What holds of the registry between calls. -/
structure Kept (r : Registry) : Prop where
  ordered : Ordered r.current.entries
  reviewed : ∀ e ∈ r.current.entries, e.reviewed = true
  made : ∀ ref candidate, r.pending = some (ref, candidate) →
    ref < r.made ∧ ∃ es, Ordered es ∧ candidate = candidateOf r.current es

theorem merge_reviewed (hp : ∀ e ∈ prev, e.reviewed = true) : (merge prev e).reviewed = true := by
  unfold merge
  split
  · rename_i old hl
    split
    · have hold : old ∈ prev := by
        unfold lookup at hl
        exact List.mem_reverse.1 (List.mem_of_find?_eq_some hl)
      exact hp old hold
    · rfl
  · rfl

theorem kept_fresh : Kept .fresh where
  ordered := List.Pairwise.nil
  reviewed := by simp [Registry.fresh]
  made ref candidate hp := by cases hp

theorem kept_effect {c : Call} {a : Answer} (hk : Kept r) (he : Effect r c a r') : Kept r' := by
  cases he with
  | raised code => exact hk
  | proposed es ho =>
    refine ⟨hk.ordered, hk.reviewed, fun ref candidate hp => ?_⟩
    cases hp
    exact ⟨Nat.lt_succ_self _, es, ho, rfl⟩
  | published ref candidate ids _ hp _ =>
    obtain ⟨-, es, ho, rfl⟩ := hk.made ref candidate hp
    refine ⟨published_ordered _ ho, fun e he => ?_, fun ref candidate hp => by cases hp⟩
    dsimp only at he
    rw [published_entries ho] at he
    obtain ⟨e', -, rfl⟩ := List.mem_map.1 he
    exact merge_reviewed hk.reviewed

theorem kept_after (h : Host) (calls : ℕ → Call) (n : ℕ) : Kept (after h calls n) :=
  Durable.Calls.invariant kept_fresh (fun _ _ hk => kept_effect hk (call_effect _ _)) n

theorem after_effect (h : Host) (calls : ℕ → Call) (n : ℕ) :
    Effect (after h calls n) (calls n) (answer h calls n) (after h calls (n + 1)) :=
  call_effect _ _

/-- The call after `n` others introduces the fingerprint of an identifier. -/
def Introduces (h : Host) (calls : ℕ → Call) (n : ℕ) (id fingerprint : Text) : Prop :=
  fingerprintAt (after h calls n).current id ≠ some fingerprint ∧
    fingerprintAt (after h calls (n + 1)).current id = some fingerprint

/-- **A fingerprint was introduced by a publication that reviewed its identifier**, and has stayed since. -/
theorem introduced {n : ℕ} {fingerprint : Text} (hn : fingerprintAt (after h calls n).current id = some fingerprint) :
    ∃ m < n, Introduces h calls m id fingerprint ∧
      (∀ j, m < j → j ≤ n → fingerprintAt (after h calls j).current id = some fingerprint) ∧
      ∃ s ref, ∃ ids : List Text, answer h calls m = .published s ∧ calls m = .publish (some ref) (.tuple (ids.map .str)) ∧ id ∈ ids := by
  induction n with
  | zero => cases hn
  | succ n ih =>
    by_cases hbefore : fingerprintAt (after h calls n).current id = some fingerprint
    · obtain ⟨m, hm, hintro, hsince, hby⟩ := ih hbefore
      refine ⟨m, by omega, hintro, fun j hj hjn => ?_, hby⟩
      by_cases hlast : j = n + 1
      · rw [hlast]
        exact hn
      · exact hsince j hj (by omega)
    · refine ⟨n, by omega, ⟨hbefore, hn⟩, fun j hj hjn => ?_, ?_⟩
      · have hlast : j = n + 1 := by omega
        rw [hlast]
        exact hn
      have heffect := after_effect h calls n
      have hk := kept_after h calls n
      generalize after h calls (n + 1) = r' at hn heffect
      generalize answer h calls n = a at heffect ⊢
      cases heffect with
      | raised code => exact absurd hn hbefore
      | proposed es ho => exact absurd hn hbefore
      | published ref candidate ids hcall hp hids =>
        obtain ⟨-, es, ho, rfl⟩ := hk.made ref candidate hp
        dsimp only at hn
        rw [published_fingerprint _ ho] at hn
        -- the fingerprint of the inventory is not the one before, so the identifier is new or changed
        refine ⟨_, ref, ids, rfl, hcall, (hids id).2 ?_⟩
        have hdiff : (candidateOf (after h calls n).current es).diff = diffOf (after h calls n).current.entries es := rfl
        have hkey : id ∈ keys es := by
          by_contra hnone
          rw [lookup_none.2 hnone] at hn
          cases hn
        rw [hdiff, List.mem_append]
        by_cases hold : id ∈ keys (after h calls n).current.entries
        · right
          refine mem_changed.2 ⟨⟨hkey, hold⟩, ?_⟩
          unfold isChanged
          rw [hn]
          exact decide_eq_true hbefore
        · left
          exact mem_added.2 ⟨hkey, hold⟩

/-- A candidate that cannot be published any more. -/
def Superseded (ref : ℕ) (r : Registry) : Prop := ref < r.made ∧ ∀ other candidate, r.pending = some (other, candidate) → other ≠ ref

theorem superseded_effect {ref : ℕ} {c : Call} {a : Answer} (hs : Superseded ref r) (he : Effect r c a r') :
    Superseded ref r' := by
  obtain ⟨hmade, hother⟩ := hs
  cases he with
  | raised code => exact ⟨hmade, hother⟩
  | proposed es ho =>
    refine ⟨by dsimp only; omega, fun other candidate hp => ?_⟩
    cases hp
    omega
  | published ref' candidate ids _ _ _ => exact ⟨hmade, fun other candidate hp => by cases hp⟩

theorem superseded_after {ref m n : ℕ} (hs : Superseded ref (after h calls m)) (hmn : m ≤ n) :
    Superseded ref (after h calls n) := by
  induction n, hmn using Nat.le_induction with
  | base => exact hs
  | succ n _ ih => exact superseded_effect ih (after_effect h calls n)

/-- The number of candidates that were made only grows. -/
theorem made_after (h : Host) (calls : ℕ → Call) {m n : ℕ} (hmn : m ≤ n) : (after h calls m).made ≤ (after h calls n).made := by
  induction n, hmn using Nat.le_induction with
  | base => exact le_rfl
  | succ n _ ih =>
    have heffect := after_effect h calls n
    generalize after h calls (n + 1) = r' at heffect ⊢
    generalize answer h calls n = a at heffect
    cases heffect with
    | raised code => exact ih
    | proposed es ho => exact le_trans ih (Nat.le_succ _)
    | published ref candidate ids _ _ _ => exact ih

/-- What was published last is current, or nothing was revised since: the versions of the snapshots only grow, and two
of one version are one. -/
theorem current_after {m n : ℕ} (hmn : m ≤ n) : (after h calls m).current.version ≤ (after h calls n).current.version ∧
    ((after h calls m).current.version = (after h calls n).current.version →
      (after h calls m).current = (after h calls n).current) := by
  induction n, hmn using Nat.le_induction with
  | base => exact ⟨le_rfl, fun _ => rfl⟩
  | succ n _ ih =>
    obtain ⟨hle, heq⟩ := ih
    have heffect := after_effect h calls n
    have hk := kept_after h calls n
    generalize after h calls (n + 1) = r' at heffect ⊢
    generalize answer h calls n = a at heffect
    cases heffect with
    | raised code => exact ⟨hle, heq⟩
    | proposed es ho => exact ⟨hle, heq⟩
    | published ref candidate ids _ hp _ =>
      obtain ⟨-, es, ho, rfl⟩ := hk.made ref candidate hp
      dsimp only
      obtain ⟨hraised, hleft⟩ := published_version (after h calls n).current ho
      by_cases hrev : Revised (after h calls n).current (published (candidateOf (after h calls n).current es))
      · have hv := hraised hrev
        exact ⟨by omega, fun hsame => by omega⟩
      · rw [published_eq hk.ordered ho hrev]
        exact ⟨hle, heq⟩

/-- **What holds of every run of the registry.** -/
structure Publication (h : Host) (calls : ℕ → Call) : Prop where
  /-- Each entry that is published is marked, and the publication that introduced its fingerprint reviewed it. -/
  reviewed : ∀ n s, answer h calls n = .published s → ∀ e ∈ s.entries, e.reviewed = true ∧
    ∃ m ≤ n, Introduces h calls m e.identifier e.fingerprint ∧
      (∀ j, m < j → j ≤ n + 1 → fingerprintAt (after h calls j).current e.identifier = some e.fingerprint) ∧
      ∃ s' ref, ∃ ids : List Text, answer h calls m = .published s' ∧ calls m = .publish (some ref) (.tuple (ids.map .str)) ∧
        e.identifier ∈ ids
  /-- Two snapshots of one version are one. -/
  equal : ∀ m n s t, answer h calls m = .published s → answer h calls n = .published t → s.version = t.version → s = t
  /-- What is published becomes current, and its version tells whether it revises what was. -/
  version : ∀ n s, answer h calls n = .published s → (after h calls (n + 1)).current = s ∧
    (Revised (after h calls n).current s → s.version = (after h calls n).current.version + 1) ∧
    (¬Revised (after h calls n).current s → s.version = (after h calls n).current.version)
  /-- A call that fails changes nothing. -/
  failing : ∀ n code, answer h calls n = .raised code → after h calls (n + 1) = after h calls n
  /-- A candidate is not published after a later call has succeeded. -/
  superseded : ∀ i j n ref candidate reviewedIds, i < j → j < n → answer h calls i = .proposed ref candidate →
    (∀ code, answer h calls j ≠ .raised code) → calls n = .publish (some ref) reviewedIds →
    ∃ code, answer h calls n = .raised code

theorem published_current {n : ℕ} {s : Snapshot} (ha : answer h calls n = .published s) :
    (after h calls (n + 1)).current = s := by
  have heffect := after_effect h calls n
  rw [ha] at heffect
  generalize after h calls (n + 1) = r' at heffect ⊢
  cases heffect
  rfl

/-- **The registry publishes what was reviewed**, whatever it is called with. -/
theorem publication (h : Host) (calls : ℕ → Call) : Publication h calls where
  reviewed n s ha e he := by
    have hcurrent := published_current ha
    have hk := kept_after h calls (n + 1)
    rw [← hcurrent] at he
    refine ⟨hk.reviewed e he, ?_⟩
    have hf : fingerprintAt (after h calls (n + 1)).current e.identifier = some e.fingerprint := by
      unfold fingerprintAt
      rw [(lookup_iff hk.ordered).2 ⟨he, rfl⟩]
      rfl
    obtain ⟨m, hm, hintro, hsince, hby⟩ := introduced hf
    exact ⟨m, by omega, hintro, hsince, hby⟩
  equal m n s t hs ht hv := by
    have hm := published_current hs
    have hn := published_current ht
    rw [← hm, ← hn] at hv ⊢
    rcases le_total (m + 1) (n + 1) with hle | hle
    · exact (current_after hle).2 hv
    · exact ((current_after hle).2 hv.symm).symm
  version n s ha := by
    refine ⟨published_current ha, ?_⟩
    have heffect := after_effect h calls n
    rw [ha] at heffect
    generalize after h calls (n + 1) = r' at heffect
    cases heffect with
    | published ref candidate ids _ hp _ =>
      obtain ⟨-, es, ho, rfl⟩ := (kept_after h calls n).made ref candidate hp
      exact published_version _ ho
  failing n code ha := by
    have heffect := after_effect h calls n
    rw [ha] at heffect
    generalize after h calls (n + 1) = r' at heffect ⊢
    cases heffect
    rfl
  superseded i j n ref candidate reviewedIds hij hjn hi hj hn := by
    have hmade : ref < (after h calls j).made := by
      have heffect := after_effect h calls i
      have hle := made_after h calls (show i + 1 ≤ j by omega)
      rw [hi] at heffect
      generalize after h calls (i + 1) = r' at heffect hle
      cases heffect
      dsimp only at hle
      omega
    have hsuperseded : Superseded ref (after h calls (j + 1)) := by
      have heffect := after_effect h calls j
      generalize after h calls (j + 1) = r' at heffect ⊢
      generalize answer h calls j = a at heffect hj
      cases heffect with
      | raised code => exact absurd rfl (hj code)
      | proposed es ho =>
        refine ⟨by dsimp only; omega, fun other c hp => ?_⟩
        cases hp
        omega
      | published ref' candidate' ids _ _ _ => exact ⟨hmade, fun other c hp => by cases hp⟩
    have hlater := superseded_after hsuperseded (show j + 1 ≤ n by omega)
    have heffect := after_effect h calls n
    cases ha : answer h calls n with
    | raised code => exact ⟨code, rfl⟩
    | proposed ref' candidate' =>
      -- a publication returns no candidate
      exfalso
      unfold answer Durable.Calls.answer at ha
      rw [hn] at ha
      unfold Registry.call at ha
      dsimp only at ha
      split at ha <;> cases ha
    | published s =>
      rw [ha] at heffect
      generalize after h calls (n + 1) = r' at heffect
      cases heffect with
      | published ref' candidate' ids hcall hp _ =>
        rw [hn] at hcall
        injection hcall with href _
        exact absurd (Option.some.inj href).symm (hlater.2 ref' candidate' hp)

end Catalog

end Arhugula
