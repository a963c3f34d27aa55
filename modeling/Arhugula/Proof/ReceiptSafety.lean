import Arhugula.Spec.Artifacts

/-!
# Receipts are bounded

What an encoding adds is a sum over characters (`encoded_eq`), so that longer parts are wider and the bisection of
`fit` is exact. The printed receipt is as long as its keys and its values (`length_object`); what is measured is wider
than the zeros before the launch by less than the slack (`length_measured`), which leaves room for the header.
-/

namespace Arhugula

namespace Artifacts

open Strings Sequence

variable {s t : Str} {l : Launch} {m : Measured} {r : Run} {keepHead : Bool} {budget : ℤ} {n k : ℕ}

/-! ## Widths -/

/-- What the characters of a `str` add. -/
def width (s : Str) : ℕ := (s.flatMap escape).length

theorem width_append : width (s ++ t) = width s + width t := by
  unfold width
  rw [List.flatMap_append, List.length_append]

theorem length_quote : (quote s).length = width s + 2 := by
  unfold quote width
  simp

theorem encoded_eq : encoded s = width s := by
  unfold encoded
  rw [length_quote]
  omega

theorem encoded_append : encoded (s ++ t) = encoded s + encoded t := by
  simp only [encoded_eq, width_append]
  omega

theorem encoded_nonneg : 0 ≤ encoded s := by
  rw [encoded_eq]
  omega

theorem width_take_le (h : n ≤ k) : width (s.take n) ≤ width (s.take k) := by
  have hsplit : s.take k = s.take n ++ (s.take k).drop n := by
    have htake : (s.take k).take n = s.take n := by rw [List.take_take, Nat.min_eq_left h]
    rw [← htake, List.take_append_drop]
  rw [hsplit, width_append]
  omega

theorem width_drop_le (h : n ≤ k) : width (s.drop k) ≤ width (s.drop n) := by
  have hsplit : s.drop n = (s.drop n).take (k - n) ++ s.drop k := by
    have hdrop : (s.drop n).drop (k - n) = s.drop k := by
      rw [List.drop_drop]
      congr 1
      omega
    rw [← hdrop, List.take_append_drop]
  rw [hsplit, width_append]
  omega

/-- **A longer part is at least as wide.** -/
theorem encoded_part_le (h : n ≤ k) : encoded (part keepHead s n) ≤ encoded (part keepHead s k) := by
  rw [encoded_eq, encoded_eq]
  unfold part
  cases keepHead with
  | true =>
    have := width_take_le (s := s) h
    simp only [if_true]
    omega
  | false =>
    have hle : s.length - k ≤ s.length - n := by omega
    have := width_drop_le (s := s) hle
    simp only [Bool.false_eq_true, if_false]
    omega

theorem length_part (h : n ≤ s.length) : (part keepHead s n).length = n := by
  unfold part
  cases keepHead with
  | true => simpa using h
  | false =>
    simp only [Bool.false_eq_true, if_false, List.length_drop]
    omega

theorem encoded_part_zero : encoded (part keepHead s 0) = 0 := by
  have hnil : part keepHead s 0 = [] := List.length_eq_zero_iff.1 (length_part (Nat.zero_le _))
  rw [hnil]
  rfl

/-! ## `fit` -/

/-- **`fit` returns the longest part that fits.** -/
theorem fit_longest (s : Str) (budget : ℤ) (keepHead : Bool) :
    ∃ n ≤ s.length, fit s budget keepHead = part keepHead s n ∧
      (0 ≤ budget → encoded (part keepHead s n) ≤ budget) ∧
      ∀ k ≤ s.length, encoded (part keepHead s k) ≤ budget → k ≤ n := by
  obtain ⟨test, htest⟩ : ∃ test : ℕ → Bool, test = fun length => decide (encoded (part keepHead s length) ≤ budget) :=
    ⟨_, rfl⟩
  have hpass : ∀ k, test k = true ↔ encoded (part keepHead s k) ≤ budget := by
    intro k
    rw [htest, decide_eq_true_eq]
  have hdown : ∀ a b, a ≤ b → test b = true → test a = true := by
    intro a b hab hb
    rw [hpass] at hb ⊢
    exact (encoded_part_le hab).trans hb
  have hfit : fit s budget keepHead = part keepHead s (bisect test s.length 0 s.length) := by
    unfold fit
    rw [htest]
  refine ⟨bisect test s.length 0 s.length, bisect_le (Nat.zero_le _), hfit, fun hbudget => ?_, fun k hk hfits => ?_⟩
  · have hzero : test 0 = true := by
      rw [hpass, encoded_part_zero]
      exact hbudget
    exact (hpass _).1 (bisect_passes hzero)
  · by_cases hpos : 0 < k
    · exact (bisect_iff hdown (Nat.sub_le _ _) (Nat.zero_le _) hpos hk).1 ((hpass k).2 hfits)
    · omega

theorem encoded_fit (s : Str) (keepHead : Bool) (h : 0 ≤ budget) : encoded (fit s budget keepHead) ≤ budget := by
  obtain ⟨n, -, heq, hfits, -⟩ := fit_longest s budget keepHead
  rw [heq]
  exact hfits h

/-! ## The summary -/

/-- **A summary fits its budget**, where the header does. -/
theorem encoded_summary {decode : List UInt8 → Str} {findings tail : List UInt8} (h : encoded tailHeader ≤ budget) :
    encoded (summary decode findings tail budget).1 ≤ budget := by
  unfold summary
  dsimp only
  obtain ⟨shown, hshown⟩ : ∃ shown, shown =
      fit (decode (findings.take budget.toNat)) ((budget - encoded tailHeader) / 2) true := ⟨_, rfl⟩
  rw [← hshown]
  have hhalf : encoded shown ≤ (budget - encoded tailHeader) / 2 := by
    rw [hshown]
    exact encoded_fit _ _ (by omega)
  have hrest : 0 ≤ budget - encoded tailHeader - encoded shown := by omega
  have hlatest := encoded_fit (decode tail) false hrest
  rw [encoded_append, encoded_append]
  omega

/-- **A summary that leaves nothing out shows every finding.** -/
theorem summary_complete {decode : List UInt8 → Str} {findings tail : List UInt8}
    (h : (summary decode findings tail budget).2 = false) :
    ∃ latest, (summary decode findings tail budget).1 = decode findings ++ tailHeader ++ latest := by
  unfold summary at h ⊢
  dsimp only at h ⊢
  simp only [Bool.not_eq_false', Bool.and_eq_true, decide_eq_true_eq] at h
  obtain ⟨hsize, hshown⟩ := h
  have hwhole : findings.take budget.toNat = findings := List.take_of_length_le (by omega)
  rw [hshown, hwhole]
  exact ⟨_, rfl⟩

/-! ## The receipt -/

/-- Values behind their heads are as long as heads and values. -/
theorem length_intercalate (sep : Text) (f : String → Text) (members : List (String × Text)) :
    (sep.intercalate (members.map fun e => f e.1 ++ e.2)).length =
      (sep.intercalate (members.map fun e => f e.1)).length + (members.map fun e => e.2.length).sum := by
  induction members with
  | nil => rfl
  | cons e members ih =>
    by_cases hnil : members = []
    · subst hnil
      simp
    · have hne : ∀ g : String × Text → Text, members.map g ≠ [] := fun g => by simpa using hnil
      rw [List.map_cons, List.map_cons, List.map_cons, List.intercalate_cons_of_ne_nil (hne _),
        List.intercalate_cons_of_ne_nil (hne _), List.sum_cons, List.length_append, List.length_append, ih,
        List.length_append, List.length_append, List.length_append]
      omega

/-- What the keys of an object take. -/
def frame (keys : List String) : ℕ :=
  (List.intercalate [',', ' '] (keys.map fun key => quote (str key) ++ [':', ' '])).length + 2

/-- **A printed object is as long as its keys and its values.** -/
theorem length_object {members : List (String × Text)} :
    (object members).length = frame (members.map Prod.fst) + (members.map fun e => e.2.length).sum := by
  have hvalues := length_intercalate [',', ' '] (fun key => quote (str key) ++ [':', ' ']) members
  unfold object frame
  rw [List.map_map, List.length_append, List.length_cons, hvalues, List.length_singleton]
  simp only [Function.comp_def]
  omega

theorem length_toDigits (h : n < 2 ^ 63) : (Nat.toDigits 10 n).length ≤ 19 := by
  rw [Nat.length_toDigits_le_iff (by decide) (by decide)]
  exact h.trans (by decide)

theorem length_digits {z : ℤ} (h : z.natAbs < 2 ^ 63) : (digits z).length ≤ 20 := by
  have hdigits := length_toDigits h
  unfold digits
  split
  · rw [List.length_cons]
    omega
  · omega

theorem length_digits_nat (h : n < 2 ^ 63) : (digits (n : ℤ)).length ≤ 19 := by
  have hdigits := length_toDigits h
  unfold digits
  rw [if_neg (by omega), Int.natAbs_natCast]
  exact hdigits

/-- An exit code has three digits and a sign. -/
theorem length_exit {z : ℤ} (h : -256 < z ∧ z < 256) : (digits z).length ≤ 4 := by
  have hdigits : (Nat.toDigits 10 z.natAbs).length ≤ 3 := by
    rw [Nat.length_toDigits_le_iff (by decide) (by decide)]
    omega
  unfold digits
  split
  · rw [List.length_cons]
    omega
  · omega

/-- A plain character stays as it is. -/
theorem width_digest (d : Digest) : width d.hex = 64 := by
  have hone : ∀ c ∈ d.hex, (escape c).length = 1 := by
    intro c hc
    have hplain := d.plain c hc
    unfold escape
    rw [if_neg (by omega), if_neg (by omega), if_neg (by omega), if_neg (by omega), if_neg (by omega), if_neg (by omega),
      if_neg (by omega), if_pos (by omega)]
    rfl
  unfold width
  rw [List.length_flatMap, List.map_congr_left hone, List.map_const', List.sum_replicate_nat, d.size]

/-- The bindings of one path differ by their sizes. -/
theorem length_binding {path : Str} {d e : Digest} (h : n < 2 ^ 63) :
    (Binding.dumps ⟨path, n, d⟩).length ≤ (Binding.dumps ⟨path, 0, e⟩).length + 18 := by
  have hsize := length_digits_nat h
  have hzero : (digits ((0 : ℕ) : ℤ)).length = 1 := by decide
  unfold Binding.dumps
  rw [length_object, length_object]
  simp only [List.map_cons, List.map_nil, List.sum_cons, List.sum_nil, length_quote, width_digest]
  omega

/-- **What a run measures is bounded**: its sizes, its count and its process id. -/
structure Bounded (m : Measured) : Prop where
  exit : (optional m.exit).length ≤ 4
  group : (optional m.group).length ≤ 19
  size : ∀ f, (m.binding f).1 < 2 ^ 63
  count : m.count < 2 ^ 63

/-- What a receipt takes for its launch, whatever is measured. -/
def Launch.fixed (l : Launch) : ℕ :=
  frame ["version", "store", "cwd", "exit", "terminal", "owned_process_group", "elapsed_seconds", "argv", "stdout",
    "stderr", "findings", "findings_count", "summary", "summary_truncated", "receipt"] + (digits 2).length +
    (width (str l.store.text) + 2) + (width l.cwd + 2) + (width (l.directory ++ str "/receipt.json") + 2)

/-- What the measures take. -/
def Launch.measures (l : Launch) (m : Measured) : ℕ :=
  (optional m.exit).length + width (str m.terminal.text) + (optional m.group).length + m.elapsed.text.length +
    ([File.argv, .stdout, .stderr, .findings].map fun f =>
      (Binding.dumps ⟨l.path f, (m.binding f).1, (m.binding f).2⟩).length).sum + (digits m.count).length

/-- **The length of a receipt.** -/
theorem length_publishable (l : Launch) (m : Measured) (s : Str) (truncated : Bool) :
    (l.publishable m s truncated).length = l.fixed + l.measures m + width s + (boolean truncated).length + 4 := by
  unfold Launch.publishable Launch.fixed Launch.measures
  rw [length_object]
  simp only [List.map_cons, List.map_nil, List.sum_cons, List.sum_nil, length_quote]
  ac_nf

/-- **The slack is enough.** -/
theorem measures_le (h : Bounded m) : l.measures m ≤ l.measures unmeasured + 138 := by
  have hterminal : width (str m.terminal.text) ≤ width (str unmeasured.terminal.text) := by
    cases m.terminal <;> decide
  have hbindings : ([File.argv, .stdout, .stderr, .findings].map fun f =>
      (Binding.dumps ⟨l.path f, (m.binding f).1, (m.binding f).2⟩).length).sum ≤
      ([File.argv, .stdout, .stderr, .findings].map fun f =>
        (Binding.dumps ⟨l.path f, (unmeasured.binding f).1, (unmeasured.binding f).2⟩).length).sum + 72 := by
    have hbinding : ∀ f, (Binding.dumps ⟨l.path f, (m.binding f).1, (m.binding f).2⟩).length ≤
        (Binding.dumps ⟨l.path f, (unmeasured.binding f).1, (unmeasured.binding f).2⟩).length + 18 :=
      fun f => length_binding (h.size f)
    simp only [List.map_cons, List.map_nil, List.sum_cons, List.sum_nil]
    have hargv := hbinding .argv
    have hstdout := hbinding .stdout
    have hstderr := hbinding .stderr
    have hfindings := hbinding .findings
    omega
  have hexit := h.exit
  have hgroup := h.group
  have hcount := length_digits_nat h.count
  have helapsed := m.elapsed.short
  unfold Launch.measures
  omega

theorem ending_bounded (p : Option Process) : (optional (ending p).2).length ≤ 4 := by
  have hnone : (optional none).length ≤ 4 := by decide
  unfold ending
  cases p with
  | none => exact hnone
  | some p =>
    dsimp only
    cases p.communicated with
    | none => exact hnone
    | some c =>
      have hcode : -256 < c.ending.2 ∧ c.ending.2 < 256 := by
        cases c with
        | exited code => exact code.bounded
        | timeout => exact ⟨by decide, by decide⟩
        | interrupted => exact ⟨by decide, by decide⟩
      dsimp only
      split
      · exact length_exit ⟨by decide, by decide⟩
      · exact length_exit hcode

/-- **The receipt bound.** -/
theorem receipt_bounded (sha256 : List UInt8 → Digest) (decode : List UInt8 → Str) (r : Run)
    (hroom : r.launch.hasRoom = true) (hsize : ∀ f, (r.content f).length < 2 ^ 63)
    (hcount : (writeFindings r.streams).2 < 2 ^ 63) (hpid : ∀ p ∈ r.process, p.pid < 2 ^ 63) :
    (r.receipt sha256 decode).length ≤ 16384 ∧
    (∀ s budget keepHead, ∃ n ≤ s.length, fit s budget keepHead = part keepHead s n ∧
      (0 ≤ budget → encoded (part keepHead s n) ≤ budget) ∧
      ∀ k ≤ s.length, encoded (part keepHead s k) ≤ budget → k ≤ n) ∧
    encoded tailHeader ≤ r.budget sha256 ∧
    ((r.summarized sha256 decode).2 = false → ∃ latest,
      (r.summarized sha256 decode).1 = decode (r.content .findings) ++ tailHeader ++ latest) := by
  have hbounded : Bounded (r.measured sha256) := by
    refine ⟨ending_bounded r.process, ?_, hsize, hcount⟩
    cases hp : r.process with
    | none =>
      have hgroup : (r.measured sha256).group = none := by
        unfold Run.measured
        rw [hp]
        rfl
      rw [hgroup]
      decide
    | some p =>
      have hgroup : (r.measured sha256).group = some (p.pid : ℤ) := by
        unfold Run.measured
        rw [hp]
        rfl
      rw [hgroup]
      exact length_digits_nat (hpid p hp)
  have hmeasures := measures_le (l := r.launch) hbounded
  have hheader : encoded tailHeader = 18 := by decide
  have hfalse : (boolean false).length = 5 := by decide
  have hbefore := length_publishable r.launch unmeasured [] false
  have hafter := length_publishable r.launch (r.measured sha256) [] false
  unfold Launch.hasRoom numericSlack modelReceiptLimit at hroom
  have hroom := of_decide_eq_true hroom
  have hbudget : encoded tailHeader ≤ r.budget sha256 ∧
      r.budget sha256 ≤ 16384 - (r.launch.publishable (r.measured sha256) [] false).length := by
    unfold Run.budget summaryBudget modelReceiptLimit
    omega
  refine ⟨?_, fit_longest, hbudget.1, summary_complete⟩
  have hsummary : encoded (r.summarized sha256 decode).1 ≤ r.budget sha256 := encoded_summary hbudget.1
  have hboolean : (boolean (r.summarized sha256 decode).2).length ≤ 5 := by
    cases (r.summarized sha256 decode).2 <;> decide
  rw [encoded_eq] at hsummary
  unfold Run.receipt
  rw [length_publishable]
  have hnil : width [] = 0 := rfl
  omega

namespace Example

/-- A run that prints one finding. -/
def run : Run where
  launch := ⟨.testOnly, str "/src", str "/runs/run-1", [str "make"]⟩
  process := some ⟨4711, some (.exited ⟨1, by decide⟩), false, false⟩
  elapsed := ⟨"0.25".toList, by decide⟩
  stdout := literal "1 failed
"
  stderr := []

end Example

theorem receipt_bounded_run :
    (Example.run.receipt (fun _ => .zero) (List.map UInt8.toNat)).length ≤ 16384 ∧
      encoded tailHeader ≤ Example.run.budget fun _ => .zero :=
  have h := receipt_bounded (fun _ => .zero) (List.map UInt8.toNat) Example.run (by decide +kernel)
    (fun f => by cases f <;> decide +kernel) (by decide +kernel) (fun p hp => by
      obtain rfl := Option.some.inj hp
      decide)
  ⟨h.1, h.2.2.1⟩

end Artifacts

end Arhugula
