import Arhugula.Sequence.Window
import Arhugula.Spec.Artifacts

/-!
# Findings are found line by line

Between two chunks the scan carries the end of a line that is long (`Between`), which is as good as the whole line
(`search_append`): a keyword is shorter than the overlap, and `OK` alone is shorter than a chunk.
-/

namespace Arhugula

namespace Artifacts

open Sequence

variable {l c rest text content : List UInt8} {m : List UInt8} {n start : ℕ}

/-! ## The search -/

/-- What is searched for, in lower case: a word, or `ran` and a digit. -/
def IsKeyword (m : List UInt8) : Prop := m ∈ words ∨ ∃ d : UInt8, 48 ≤ d ∧ d ≤ 57 ∧ m = literal "ran " ++ [d]

/-- A keyword is shorter than the overlap. -/
theorem IsKeyword.length_le (h : IsKeyword m) : m.length ≤ keywordOverlap + 1 := by
  rcases h with h | ⟨d, -, -, rfl⟩
  · have hall : ∀ w ∈ words, w.length ≤ keywordOverlap + 1 := by decide
    exact hall m h
  · simp [literal, keywordOverlap]

/-- A keyword has no newline. -/
theorem IsKeyword.no_newline (h : IsKeyword m) : newline ∉ m := by
  rcases h with h | ⟨d, hlow, -, rfl⟩
  · have hall : ∀ w ∈ words, newline ∉ w := by decide
    exact hall m h
  · intro hmem
    rcases List.mem_append.1 hmem with hmem | hmem
    · exact absurd hmem (by decide)
    · obtain rfl : newline = d := by simpa using hmem
      exact absurd hlow (by decide)

theorem drop_ran : (literal "ran " ++ text).drop 4 = text := List.drop_left' (by decide)

theorem startsFinding_iff : startsFinding text = true ↔ ∃ m, IsKeyword m ∧ m <+: text := by
  unfold startsFinding isRan
  simp only [Bool.or_eq_true, Bool.and_eq_true, List.any_eq_true, List.isPrefixOf_iff_prefix]
  constructor
  · rintro (⟨w, hw, hprefix⟩ | ⟨⟨t, rfl⟩, hdigit⟩)
    · exact ⟨w, .inl hw, hprefix⟩
    · obtain ⟨d, rest, rfl⟩ : ∃ d rest, t = d :: rest := by
        cases t with
        | nil => exact absurd hdigit (by decide)
        | cons d rest => exact ⟨d, rest, rfl⟩
      have hd : 48 ≤ d ∧ d ≤ 57 := by
        rw [drop_ran] at hdigit
        simpa using hdigit
      exact ⟨literal "ran " ++ [d], .inr ⟨d, hd.1, hd.2, rfl⟩, ⟨rest, by simp⟩⟩
  · rintro ⟨m, hm | ⟨d, hlow, hhigh, rfl⟩, hprefix⟩
    · exact .inl ⟨m, hm, hprefix⟩
    · obtain ⟨t, rfl⟩ := hprefix
      refine .inr ⟨⟨d :: t, by simp⟩, ?_⟩
      rw [List.append_assoc, drop_ran]
      simpa using ⟨hlow, hhigh⟩

/-- The lowered text has a keyword. -/
theorem any_tails_iff : text.tails.any startsFinding = true ↔ Occurs IsKeyword text := by
  rw [List.any_eq_true]
  constructor
  · rintro ⟨s, hs, hstarts⟩
    obtain ⟨m, hm, hprefix⟩ := startsFinding_iff.1 hstarts
    exact ⟨m, hm, hprefix.isInfix.trans ((List.mem_tails s text).1 hs).isInfix⟩
  · rintro ⟨m, hm, s, t, heq⟩
    have hsuffix : m ++ t <:+ text := ⟨s, by rw [← List.append_assoc]; exact heq⟩
    exact ⟨m ++ t, (List.mem_tails _ _).2 hsuffix, startsFinding_iff.2 ⟨m, hm, List.prefix_append m t⟩⟩

/-- **`FINDING.search`**: `OK` alone, or a keyword somewhere. -/
theorem search_iff : search text = true ↔ isOk (text.map lower) = true ∨ Occurs IsKeyword (text.map lower) := by
  unfold search
  rw [Bool.or_eq_true, any_tails_iff]

theorem lower_newline {b : UInt8} : lower b = newline ↔ b = newline := by
  unfold lower newline
  split
  · rename_i h
    obtain ⟨hlow, hhigh⟩ := h
    have hlow' : (65 : ℕ) ≤ b.toNat := by simpa [UInt8.le_iff_toNat_le] using hlow
    have hhigh' : b.toNat ≤ (90 : ℕ) := by simpa [UInt8.le_iff_toNat_le] using hhigh
    rw [← UInt8.toNat_inj, ← UInt8.toNat_inj, UInt8.toNat_add]
    simp only [UInt8.reduceToNat]
    omega
  · exact Iff.rfl

theorem map_lower_newline : newline ∈ l.map lower ↔ newline ∈ l := by
  rw [List.mem_map]
  constructor
  · rintro ⟨b, hb, heq⟩
    rwa [← lower_newline.1 heq]
  · intro h
    exact ⟨newline, h, lower_newline.2 rfl⟩

/-- Only a short text is `OK` alone. -/
theorem isOk_long (h : 4 ≤ text.length) : isOk text = false := by
  unfold isOk
  rw [Bool.or_eq_false_iff, decide_eq_false_iff_not, decide_eq_false_iff_not]
  constructor
  · rintro rfl
    exact absurd h (by decide)
  · rintro rfl
    exact absurd h (by decide)

/-- **The overlap is enough**: after a line that is long, or nothing, a chunk is searched with the end of the line. -/
theorem search_append (h : l = [] ∨ keywordOverlap ≤ l.length) :
    (search l || search (l.rtake keywordOverlap ++ c)) = search (l ++ c) := by
  rcases h with rfl | h
  · have hnil : search [] = false := by decide
    rw [hnil, Bool.false_or]
    rfl
  have hlong : keywordOverlap ≤ (l.rtake keywordOverlap).length := by
    unfold List.rtake
    rw [List.length_drop]
    omega
  unfold keywordOverlap at h hlong
  rw [Bool.eq_iff_iff, Bool.or_eq_true, search_iff, search_iff, search_iff]
  have hmap : (l.rtake keywordOverlap).map lower = (l.map lower).rtake keywordOverlap := by
    unfold List.rtake
    rw [List.map_drop, List.length_map]
  rw [isOk_long (by rw [List.length_map]; omega),
    isOk_long (by rw [List.length_map, List.length_append]; unfold keywordOverlap; omega),
    isOk_long (by rw [List.length_map, List.length_append]; omega), List.map_append, List.map_append, hmap,
    occurs_append (a := l.map lower) fun m hm => hm.length_le]
  simp

/-- The newline of a line changes nothing. -/
theorem search_newline (h : newline ∉ l) : search (l ++ [newline]) = search l := by
  have hlow : lower newline = newline := lower_newline.2 rfl
  rw [Bool.eq_iff_iff, search_iff, search_iff, List.map_append, List.map_singleton, hlow,
    occurs_concat fun m hm => hm.no_newline]
  refine or_congr_left ?_
  unfold isOk
  have hnone : newline ∉ l.map lower := fun hmem => h (map_lower_newline.1 hmem)
  have hok : literal "ok\n" = literal "ok" ++ [newline] := by decide
  have hnot : newline ∉ literal "ok" := by decide
  rw [Bool.or_eq_true, Bool.or_eq_true, decide_eq_true_eq, decide_eq_true_eq, decide_eq_true_eq, decide_eq_true_eq, hok]
  constructor
  · rintro (heq | heq)
    · exact absurd (heq ▸ List.mem_append_right _ List.mem_cons_self) hnot
    · exact .inl (List.append_cancel_right heq)
  · rintro (heq | heq)
    · exact .inr (by rw [heq])
    · exact absurd (heq ▸ List.mem_append_right _ List.mem_cons_self) hnone

/-! ## The loop -/

/-- **`readline`**: it ends with the first newline; or there is none in it, and it is full or the last one. -/
theorem readline_spec (n : ℕ) (rest : List UInt8) :
    (∃ c rest', rest = c ++ newline :: rest' ∧ newline ∉ c ∧ readline n rest = c ++ [newline]) ∨
    (newline ∉ readline n rest ∧ ∃ rest', rest = readline n rest ++ rest' ∧
      (rest' = [] ∨ (readline n rest).length = n)) := by
  induction n generalizing rest with
  | zero => exact .inr ⟨by simp [readline], rest, by simp [readline], .inr (by simp [readline])⟩
  | succ n ih =>
    cases rest with
    | nil => exact .inr ⟨by simp [readline], [], by simp [readline], .inl rfl⟩
    | cons b rest =>
      rw [readline]
      by_cases hb : b = newline
      · rw [if_pos hb]
        subst hb
        exact .inl ⟨[], rest, rfl, by simp, rfl⟩
      · rw [if_neg hb]
        rcases ih rest with ⟨c, rest', heq, hnot, hread⟩ | ⟨hnot, rest', heq, hend⟩
        · refine .inl ⟨b :: c, rest', by rw [heq]; rfl, ?_, by rw [hread]; rfl⟩
          simp [hnot, Ne.symm hb]
        · refine .inr ⟨by simp [hnot, Ne.symm hb], rest', by rw [List.cons_append, ← heq], ?_⟩
          rcases hend with hend | hend
          · exact .inl hend
          · exact .inr (by rw [List.length_cons, hend])

/-- The spans of the lines that are found. -/
def matchedSpans : ℕ → List (List UInt8) → List (ℕ × ℕ)
  | _, [] => []
  | start, line :: lines =>
    (if search line then [(start, start + line.length)] else []) ++ matchedSpans (start + line.length + 1) lines

/-- **The loop between two chunks**: `before` has been read, to the line `l`. What is left is searched. -/
structure Between (s : Scan) (start : ℕ) (l rest : List UInt8) : Prop where
  begun : s.start = start
  tell : s.tell = start + l.length
  matched : s.matched = search l
  line : newline ∉ l
  carry : rest = [] ∨ s.carry = l.rtake keywordOverlap ∧ (l = [] ∨ keywordOverlap ≤ l.length)

theorem chunks_cons (h : readline 1024 rest ≠ []) :
    chunks (n + 1) rest = readline 1024 rest :: chunks n (rest.drop (readline 1024 rest).length) := by
  rw [chunks]
  cases hread : readline 1024 rest with
  | nil => exact absurd hread h
  | cons b chunk => rfl

/-- A chunk is searched with what was carried, which is as good as the whole line. -/
theorem Between.search_chunk {s : Scan} (h : Between s start l rest) (hrest : rest ≠ []) :
    (s.matched || search (s.carry ++ c)) = search (l ++ c) := by
  obtain ⟨hcarry, hlong⟩ := h.carry.resolve_left hrest
  rw [h.matched, hcarry, search_append hlong]

/-- **A chunk that ends a line.** -/
theorem Between.line_step {s : Scan} (h : Between s start l (c ++ newline :: rest)) (hc : newline ∉ c) :
    Between (s.step (c ++ [newline])) (start + (l ++ c).length + 1) [] rest ∧
      (s.step (c ++ [newline])).spans =
        s.spans ++ if search (l ++ c) then [(start, start + (l ++ c).length)] else [] := by
  have hline : newline ∉ l ++ c := by
    rw [List.mem_append, not_or]
    exact ⟨h.line, hc⟩
  have hfound : (s.matched || search (s.carry ++ (c ++ [newline]))) = search (l ++ c) := by
    rw [h.search_chunk (by simp), ← List.append_assoc, search_newline hline]
  have htell : s.tell + (c ++ [newline]).length = start + (l ++ c).length + 1 := by
    rw [h.tell, List.length_append, List.length_append, List.length_singleton]
    omega
  have hstep : s.step (c ++ [newline]) = ⟨start + (l ++ c).length + 1, start + (l ++ c).length + 1, false, [],
      if search (l ++ c) then s.spans ++ [(start, start + (l ++ c).length)] else s.spans⟩ := by
    unfold Scan.step
    dsimp only
    rw [List.getLast?_concat, if_pos rfl, hfound, htell, h.begun]
    rfl
  rw [hstep]
  refine ⟨⟨rfl, rfl, ?_, by simp, .inr ⟨by simp, .inl rfl⟩⟩, ?_⟩
  · have hnil : search [] = false := by decide
    exact hnil.symm
  · dsimp only
    split
    · rfl
    · rw [List.append_nil]

/-- **A chunk inside a line.** It is full, or the last one. -/
theorem Between.chunk_step {s : Scan} {rest' : List UInt8} (h : Between s start l (c ++ rest')) (hne : c ≠ [])
    (hc : newline ∉ c) (hend : rest' = [] ∨ c.length = 1024) :
    Between (s.step c) start (l ++ c) rest' ∧ (s.step c).spans = s.spans := by
  have hlast : c.getLast? ≠ some newline := by
    intro hlast
    exact hc (List.mem_of_getLast? hlast)
  have hfound : (s.matched || search (s.carry ++ c)) = search (l ++ c) := h.search_chunk (by simp [hne])
  unfold Scan.step
  dsimp only
  rw [if_neg hlast, hfound]
  refine ⟨⟨h.begun, ?_, rfl, ?_, ?_⟩, rfl⟩
  · dsimp only
    rw [h.tell, List.length_append, Nat.add_assoc]
  · rw [List.mem_append, not_or]
    exact ⟨h.line, hc⟩
  · rcases hend with hend | hend
    · exact .inl hend
    · have hlong : keywordOverlap ≤ c.length := by rw [hend]; decide
      refine .inr ⟨(rtake_append hlong).symm, .inr ?_⟩
      rw [List.length_append]
      omega

/-- **After the last chunk**, the line that is not ended is left. -/
theorem Between.finish {s : Scan} (h : Between s start l []) :
    s.finish = s.spans ++ matchedSpans start ((l ++ []).splitOn newline) := by
  rw [List.append_nil, List.splitOn_eq_singleton h.line, Scan.finish, h.matched, matchedSpans, matchedSpans, h.begun,
    h.tell, List.append_nil]
  by_cases hfound : search l = true
  · rw [if_pos hfound, if_pos hfound]
  · rw [if_neg hfound, if_neg hfound, List.append_nil]

/-- **From any chunk on**, the spans of what is left are added. -/
theorem scan_rest {s : Scan} (h : Between s start l rest) (hn : rest.length ≤ n) :
    ((chunks n rest).foldl Scan.step s).finish = s.spans ++ matchedSpans start ((l ++ rest).splitOn newline) := by
  induction n generalizing s start l rest with
  | zero =>
    obtain rfl : rest = [] := List.length_eq_zero_iff.1 (by omega)
    exact h.finish
  | succ n ih =>
    rcases readline_spec 1024 rest with ⟨c, rest', rfl, hc, hread⟩ | ⟨hc, rest', hrest, hend⟩
    · -- the chunk ends the line
      have hlen : rest'.length ≤ n := by
        rw [List.length_append, List.length_cons] at hn
        omega
      have hdrop : (c ++ newline :: rest').drop (c ++ [newline]).length = rest' := by
        rw [show c ++ newline :: rest' = (c ++ [newline]) ++ rest' from List.append_cons ..]
        exact List.drop_left' rfl
      obtain ⟨hbetween, hspans⟩ := h.line_step hc
      rw [chunks_cons (by rw [hread]; simp), hread, hdrop, List.foldl_cons, ih hbetween hlen, hspans, List.append_assoc]
      congr 1
      have hline : newline ∉ l ++ c := by
        rw [List.mem_append, not_or]
        exact ⟨h.line, hc⟩
      rw [← List.append_assoc, List.splitOn_append_cons_self, List.splitOn_eq_singleton hline, List.singleton_append,
        matchedSpans, List.nil_append]
    · by_cases hnil : readline 1024 rest = []
      · -- there is nothing left
        have hempty : rest' = [] := by
          rcases hend with hend | hend
          · exact hend
          · rw [hnil] at hend
            cases hend
        have hrest : rest = [] := by rw [hrest, hnil, hempty]; rfl
        subst hrest
        have hchunks : chunks (n + 1) [] = [] := rfl
        rw [hchunks]
        exact h.finish
      · have hlen : rest'.length ≤ n := by
          have hpos : 0 < (readline 1024 rest).length := List.length_pos_iff.2 hnil
          have htotal := congrArg List.length hrest
          rw [List.length_append] at htotal
          omega
        have hdrop : rest.drop (readline 1024 rest).length = rest' := by
          have hcut := congrArg (List.drop (readline 1024 rest).length) hrest
          rwa [List.drop_left' rfl] at hcut
        rw [hrest] at h
        obtain ⟨hbetween, hspans⟩ := h.chunk_step hnil hc hend
        rw [chunks_cons hnil, hdrop, List.foldl_cons, ih hbetween hlen, hspans, List.append_assoc, ← hrest]

/-! ## The lines -/

/-- The spans of lines, from `start` on. -/
def lineSpans : ℕ → List (List UInt8) → List (ℕ × ℕ)
  | _, [] => []
  | start, line :: lines => (start, start + line.length) :: lineSpans (start + line.length + 1) lines

theorem lineSpans_start {lines : List (List UInt8)} {span : ℕ × ℕ} (h : span ∈ lineSpans start lines) :
    start ≤ span.1 ∧ span.1 ≤ span.2 := by
  induction lines generalizing start with
  | nil => cases h
  | cons line lines ih =>
    rcases List.mem_cons.1 h with rfl | h
    · exact ⟨le_rfl, Nat.le_add_right _ _⟩
    · have := ih h
      omega

/-- Lines follow each other. -/
theorem lineSpans_pairwise {lines : List (List UInt8)} : (lineSpans start lines).Pairwise fun a b => a.2 < b.1 := by
  induction lines generalizing start with
  | nil => exact List.Pairwise.nil
  | cons line lines ih =>
    refine List.pairwise_cons.2 ⟨fun span hspan => ?_, ih⟩
    have := lineSpans_start hspan
    dsimp only
    omega

/-- A line is what its span holds. -/
theorem matchedSpans_eq (before : List UInt8) {lines : List (List UInt8)} (hs : start = before.length)
    (hc : content = before ++ List.intercalate [newline] lines) :
    matchedSpans start lines = (lineSpans start lines).filter fun span => search (slice content span) := by
  induction lines generalizing start before with
  | nil => rfl
  | cons line lines ih =>
    have hslice : slice content (start, start + line.length) = line := by
      obtain ⟨tail, htail⟩ : ∃ tail, List.intercalate [newline] (line :: lines) = line ++ tail := by
        cases lines with
        | nil => exact ⟨[], by simp⟩
        | cons next lines => exact ⟨newline :: List.intercalate [newline] (next :: lines), by simp⟩
      unfold slice
      rw [hc, htail, hs, ← List.append_assoc, List.take_left' (by rw [List.length_append]), List.drop_left' rfl]
    rw [matchedSpans, lineSpans, List.filter_cons, hslice]
    have hrest : matchedSpans (start + line.length + 1) lines =
        (lineSpans (start + line.length + 1) lines).filter fun span => search (slice content span) := by
      cases lines with
      | nil => rfl
      | cons next lines =>
        refine ih (before ++ line ++ [newline]) ?_ ?_
        · rw [List.length_append, List.length_append, List.length_singleton, hs]
        · rw [hc]
          simp
    rw [hrest]
    by_cases hfound : search line = true
    · rw [if_pos hfound, if_pos hfound]
      rfl
    · rw [if_neg hfound, if_neg hfound, List.nil_append]

/-- **`finding_spans` is a search line by line**: it yields the spans of the lines in which `FINDING` is found, in
order, each once. -/
theorem findingSpans_exact (content : List UInt8) :
    findingSpans content =
      (lineSpans 0 (content.splitOn newline)).filter (fun span => search (slice content span)) ∧
    (findingSpans content).Pairwise (fun a b => a.2 < b.1) ∧ (findingSpans content).Nodup := by
  have hstart : Between ⟨0, 0, false, [], []⟩ 0 [] content :=
    ⟨rfl, rfl, by decide, by simp, .inr ⟨by simp, .inl rfl⟩⟩
  have hlines : findingSpans content =
      (lineSpans 0 (content.splitOn newline)).filter fun span => search (slice content span) := by
    unfold findingSpans
    rw [scan_rest hstart le_rfl, List.nil_append, List.nil_append]
    refine matchedSpans_eq [] rfl ?_
    rw [List.intercalate_splitOn, List.nil_append]
  have hpairwise : (findingSpans content).Pairwise fun a b => a.2 < b.1 := by
    rw [hlines]
    exact lineSpans_pairwise.filter _
  refine ⟨hlines, hpairwise, ?_⟩
  rw [hlines]
  have hordered : (lineSpans 0 (content.splitOn newline)).Nodup := by
    refine (lineSpans_pairwise.imp_of_mem ?_)
    rintro a b ha - hlt rfl
    have := lineSpans_start ha
    omega
  exact hordered.filter _

end Artifacts

end Arhugula
