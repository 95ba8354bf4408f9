import Mathlib.Data.List.Chain
import MockDialect.Proofs.Text.Lines

namespace MockDialect.Text

variable {text : List Char} {offset first last : Nat}

/-- The ranges of lines that follow one another, each but the first behind a line break. -/
def rangesFrom : Nat → List (List Char) → List Span
  | _, [] => []
  | offset, line :: lines => ⟨offset, offset + width line⟩ :: rangesFrom (offset + width line + 1) lines

def lineRanges (text : List Char) : List Span := rangesFrom 0 (text.splitOn '\n')

@[simp] theorem length_rangesFrom (offset : Nat) (lines : List (List Char)) :
    (rangesFrom offset lines).length = lines.length := by
  induction lines generalizing offset with
  | nil => rfl
  | cons line lines ih => simp [rangesFrom, ih]

theorem length_splitOn_newline (text : List Char) : (text.splitOn '\n').length = text.count '\n' + 1 := by
  induction text with
  | nil => rfl
  | cons c cs ih =>
    rw [List.splitOn_cons_eq_if_modifyHead]
    by_cases hc : c = '\n' <;> simp [hc, ih]

theorem length_lineRanges (text : List Char) : (lineRanges text).length = text.count '\n' + 1 := by
  rw [lineRanges, length_rangesFrom, length_splitOn_newline]

theorem le_of_mem_rangesFrom {lines : List (List Char)} {s : Span} (h : s ∈ rangesFrom offset lines) :
    offset ≤ s.start ∧ s.start ≤ s.stop := by
  induction lines generalizing offset with
  | nil => cases h
  | cons line lines ih =>
    rcases List.mem_cons.mp h with rfl | h
    · exact ⟨Nat.le_refl _, Nat.le_add_right _ _⟩
    · have hbehind := ih h
      omega

theorem rangesFrom_pairwise (offset : Nat) (lines : List (List Char)) :
    (rangesFrom offset lines).Pairwise fun a b => a.stop < b.start := by
  induction lines generalizing offset with
  | nil => exact .nil
  | cons line lines ih => exact .cons (fun s hs => (le_of_mem_rangesFrom hs).1) (ih _)

theorem rangesFrom_isChain (offset : Nat) (lines : List (List Char)) :
    (rangesFrom offset lines).IsChain fun a b => b.start = a.stop + 1 := by
  induction lines generalizing offset with
  | nil => exact .nil
  | cons line lines ih =>
    cases lines with
    | nil => exact .singleton _
    | cons next lines => exact .cons_cons rfl (ih _)

theorem getLast?_rangesFrom {lines : List (List Char)} {s : Span} (h : (rangesFrom offset lines).getLast? = some s) :
    s.stop = offset + width (['\n'].intercalate lines) := by
  induction lines generalizing offset with
  | nil => cases h
  | cons line lines ih =>
    cases lines with
    | nil =>
      rw [← Option.some.inj h, List.intercalate_singleton]
      rfl
    | cons next lines =>
      have hend : (rangesFrom (offset + width line + 1) (next :: lines)).getLast? = some s := by
        simpa [rangesFrom] using h
      have hbehind := ih hend
      have hbreak : width ['\n'] = 1 := rfl
      rw [hbehind, List.intercalate_cons_cons, width_append, width_append, hbreak]
      omega

theorem map_slice_rangesFrom (before : List Char) (lines : List (List Char)) :
    (rangesFrom (width before) lines).map (slice (before ++ ['\n'].intercalate lines)) = lines.map String.ofList := by
  induction lines generalizing before with
  | nil => rfl
  | cons line lines ih =>
    cases lines with
    | nil =>
      have hline := slice_middle before line []
      rw [List.append_nil] at hline
      rw [List.intercalate_singleton, rangesFrom, List.map_cons, hline]
      rfl
    | cons next lines =>
      have hstop : width before + width line + 1 = width (before ++ line ++ ['\n']) := by
        rw [width_append, width_append]
        rfl
      have hline := slice_middle before line (['\n'] ++ ['\n'].intercalate (next :: lines))
      have hbehind := ih (before ++ line ++ ['\n'])
      simp only [List.append_assoc] at hline hbehind
      rw [rangesFrom, List.map_cons, List.map_cons, List.intercalate_cons_cons, List.append_assoc, hline, hstop]
      simp only [List.append_assoc]
      rw [hbehind]

theorem cons_breakEnds (offset : Nat) (text : List Char) :
    offset :: breakEnds offset text = (rangesFrom offset (text.splitOn '\n')).map (·.start) := by
  induction text generalizing offset with
  | nil => rfl
  | cons c cs ih =>
    rw [List.splitOn_cons_eq_if_modifyHead, breakEnds]
    by_cases hc : c = '\n'
    · simp only [hc, if_true, BEq.rfl, rangesFrom, width_nil, Nat.add_zero, List.map_cons, ← ih]
    · obtain ⟨line, lines, hlines⟩ := List.exists_cons_of_ne_nil (List.splitOn_ne_nil '\n' cs)
      have hbehind := ih (offset + c.utf8Size)
      rw [hlines, rangesFrom, List.map_cons] at hbehind
      simp [hc, hlines, rangesFrom, (List.cons.inj hbehind).2, Nat.add_assoc]

theorem lineStarts_eq (text : List Char) : lineStarts text = (lineRanges text).map (·.start) := cons_breakEnds 0 text

theorem lineSpan?_eq_none_iff :
    lineSpan? text first last = none ↔ first = 0 ∨ last < first ∨ text.count '\n' + 1 < first := by
  unfold lineSpan?
  split
  case isTrue h => simpa [← or_assoc] using .inl h
  case isFalse h =>
    rw [lineStarts_eq, List.getElem?_map, ← length_lineRanges text]
    cases hrange : (lineRanges text)[first - 1]? with
    | none =>
      have hpast := List.getElem?_eq_none_iff.mp hrange
      simp only [Option.map_none, true_iff]
      omega
    | some s =>
      have hin := (List.getElem?_eq_some_iff.mp hrange).1
      simp only [Option.map_some, reduceCtorEq, false_iff]
      omega

theorem start_le_stop {i j : Nat} {s t : Span} (hs : (lineRanges text)[i]? = some s)
    (ht : (lineRanges text)[j]? = some t) (hij : i ≤ j) : s.start ≤ t.stop := by
  obtain ⟨hi, rfl⟩ := List.getElem?_eq_some_iff.mp hs
  obtain ⟨hj, rfl⟩ := List.getElem?_eq_some_iff.mp ht
  have hordered := (le_of_mem_rangesFrom (List.getElem_mem hi)).2
  rcases Nat.eq_or_lt_of_le hij with rfl | hlt
  · exact hordered
  · have hapart := List.pairwise_iff_getElem.mp (rangesFrom_pairwise 0 (text.splitOn '\n')) i j hi hj hlt
    have hbehind := (le_of_mem_rangesFrom (List.getElem_mem hj)).2
    exact Nat.le_trans hordered (Nat.le_trans (Nat.le_of_lt hapart) hbehind)

theorem start_of_succ {i : Nat} {s t : Span} (hs : (lineRanges text)[i]? = some s)
    (ht : (lineRanges text)[i + 1]? = some t) : t.start = s.stop + 1 := by
  obtain ⟨hi, rfl⟩ := List.getElem?_eq_some_iff.mp hs
  obtain ⟨hj, rfl⟩ := List.getElem?_eq_some_iff.mp ht
  exact List.isChain_iff_getElem.mp (rangesFrom_isChain 0 (text.splitOn '\n')) i hj

theorem stop_of_last {s : Span} (hs : (lineRanges text)[text.count '\n']? = some s) : s.stop = width text := by
  have hend : (lineRanges text).getLast? = some s := by
    rw [List.getLast?_eq_getElem?, length_lineRanges, Nat.add_sub_cancel, hs]
  rw [getLast?_rangesFrom hend, List.intercalate_splitOn, Nat.zero_add]

theorem lineSpan?_of_ranges {s t : Span} (hfirst : 0 < first) (hlast : first ≤ last)
    (hs : (lineRanges text)[first - 1]? = some s)
    (ht : (lineRanges text)[min last (text.count '\n' + 1) - 1]? = some t) :
    lineSpan? text first last = some ⟨s.start, t.stop⟩ := by
  have hin := (List.getElem?_eq_some_iff.mp hs).1
  rw [length_lineRanges] at hin
  have hordered := start_le_stop hs ht (by omega)
  rw [lineSpan?, if_neg (by omega), lineStarts_eq, List.getElem?_map, hs, List.getElem?_map]
  -- the next line starts right behind the break, and behind the last line there is none
  cases hnext : (lineRanges text)[last]? with
  | none =>
    have hpast := List.getElem?_eq_none_iff.mp hnext
    rw [length_lineRanges] at hpast
    rw [Nat.min_eq_right hpast, Nat.add_sub_cancel] at ht
    simp only [Option.map_some, Option.map_none, ← stop_of_last ht, Nat.max_eq_left hordered]
  | some next =>
    have hbelow := (List.getElem?_eq_some_iff.mp hnext).1
    rw [length_lineRanges] at hbelow
    rw [Nat.min_eq_left (by omega)] at ht
    have hbreak := start_of_succ ht (by rwa [Nat.sub_add_cancel (by omega)])
    simp only [Option.map_some, hbreak, Nat.add_sub_cancel, Nat.max_eq_left hordered]

theorem lineSpan?_self {i : Nat} {s : Span} (hs : (lineRanges text)[i]? = some s) :
    lineSpan? text (i + 1) (i + 1) = some s := by
  have hin := (List.getElem?_eq_some_iff.mp hs).1
  rw [length_lineRanges] at hin
  exact lineSpan?_of_ranges (Nat.succ_pos i) (Nat.le_refl _) hs (by rwa [Nat.min_eq_left hin])

theorem takeWhile_breakEnds_nil {n : Nat} (h : n ≤ offset) :
    (breakEnds offset text).takeWhile (· ≤ n) = [] := by
  cases hends : breakEnds offset text with
  | nil => rfl
  | cons first ends =>
    obtain ⟨before, after, -, rfl, hpos⟩ := breakEnds_bounds (n := first) (hends ▸ List.mem_cons_self)
    exact List.takeWhile_cons_of_neg (by simp only [decide_eq_true_eq]; omega)

/-- The breaks before an offset are as many as the lines that start behind one and not past the offset. -/
theorem breaksBefore_eq (n offset : Nat) (text : List Char) :
    breaksBefore n text = ((breakEnds offset text).takeWhile (· ≤ offset + n)).length := by
  induction text generalizing n offset with
  | nil => cases n <;> rfl
  | cons c cs ih =>
    cases n with
    | zero =>
      rw [Nat.add_zero, takeWhile_breakEnds_nil (Nat.le_refl _)]
      rfl
    | succ n =>
      rw [breaksBefore, breakEnds]
      by_cases hc : c = '\n'
      · have hsize : c.utf8Size = 1 := by rw [hc]; rfl
        rw [if_pos hc, if_pos hc, hsize, List.takeWhile_cons_of_pos (by simp), Nat.add_sub_cancel, ih n (offset + 1),
          Nat.add_right_comm, Nat.add_assoc, List.length_cons, Nat.add_comm]
      · rw [if_neg hc, if_neg hc, Nat.zero_add, ih _ (offset + c.utf8Size)]
        -- an offset inside the character has no more line starts before it than the character
        by_cases hinside : c.utf8Size ≤ n + 1
        · rw [Nat.add_assoc, Nat.add_sub_cancel' hinside]
        · rw [takeWhile_breakEnds_nil (by omega), takeWhile_breakEnds_nil (by omega)]

theorem lineOf_eq (text : List Char) (offset : Nat) :
    lineOf text offset = ((lineStarts text).takeWhile (· ≤ offset)).length := by
  rw [lineOf, breaksBefore_eq offset 0, Nat.zero_add, lineStarts, List.takeWhile_cons_of_pos (by simp),
    List.length_cons]

/-- The line of an offset starts at the last line start that is not past it, and the next line starts behind it. -/
theorem lineRanges_lineOf (text : List Char) (offset : Nat) : ∃ s, (lineRanges text)[lineOf text offset - 1]? = some s ∧
    s.start = lineStart text offset ∧ ∀ t, (lineRanges text)[lineOf text offset]? = some t → offset < t.start := by
  have hstarts := List.takeWhile_append_dropWhile (p := (· ≤ offset)) (l := lineStarts text)
  have hbehind := List.head?_dropWhile_not (· ≤ offset) (lineStarts text)
  have hne : (lineStarts text).takeWhile (· ≤ offset) ≠ [] := by simp [lineStarts]
  have hpos := List.length_pos_iff.mpr hne
  rw [lineOf_eq, lineStart, List.getLastD_eq_getLast?, List.getLast?_eq_some_getLast hne, Option.getD_some]
  generalize (lineStarts text).takeWhile (· ≤ offset) = front at hstarts hne hpos ⊢
  generalize (lineStarts text).dropWhile (· ≤ offset) = back at hstarts hbehind
  rw [lineStarts_eq] at hstarts
  have hline : ((lineRanges text).map (·.start))[front.length - 1]? = some (front.getLast hne) := by
    rw [← hstarts, List.getElem?_append_left (by omega), ← List.getLast?_eq_getElem?, List.getLast?_eq_some_getLast hne]
  have hnext : ((lineRanges text).map (·.start))[front.length]? = back.head? := by
    rw [← hstarts, List.getElem?_append_right (Nat.le_refl _), Nat.sub_self, List.head?_eq_getElem?]
  rw [List.getElem?_map] at hline hnext
  obtain ⟨s, hs, hstart⟩ := Option.map_eq_some_iff.mp hline
  refine ⟨s, hs, hstart, fun t ht => ?_⟩
  rw [ht, Option.map_some] at hnext
  rw [← hnext] at hbehind
  simpa using hbehind

theorem lineSpan?_lineOf (h : offset ≤ width text) : ∃ s,
    lineSpan? text (lineOf text offset) (lineOf text offset) = some s ∧ s.start = lineStart text offset ∧
      offset ≤ s.stop := by
  obtain ⟨s, hs, hstart, hnext⟩ := lineRanges_lineOf text offset
  have hin := (List.getElem?_eq_some_iff.mp hs).1
  rw [length_lineRanges] at hin
  refine ⟨s, lineSpan?_self hs, hstart, ?_⟩
  cases hbehind : (lineRanges text)[lineOf text offset]? with
  | none =>
    have hpast := List.getElem?_eq_none_iff.mp hbehind
    rw [length_lineRanges] at hpast
    rw [stop_of_last (s := s) (by rwa [show text.count '\n' = lineOf text offset - 1 by omega])]
    exact h
  | some t =>
    have hbreak := start_of_succ hs hbehind
    have hlt := hnext t hbehind
    omega

/-- Ranges that take a text apart, with one line break between each two. -/
structure Tiling (text : List Char) (spans : List Span) : Prop where
  begins : ∀ s ∈ spans.head?, s.start = 0
  ends : ∀ s ∈ spans.getLast?, s.stop = width text
  next : spans.IsChain fun a b => b.start = a.stop + 1
  joined : "\n".intercalate (spans.map (slice text)) = String.ofList text

theorem lineRanges_tiling (text : List Char) : Tiling text (lineRanges text) where
  begins s hs := by
    obtain ⟨line, lines, hlines⟩ := List.exists_cons_of_ne_nil (List.splitOn_ne_nil '\n' text)
    rw [lineRanges, hlines] at hs
    rw [← Option.some.inj hs]
  ends s hs := by rw [getLast?_rangesFrom hs, List.intercalate_splitOn, Nat.zero_add]
  next := rangesFrom_isChain 0 _
  joined := by
    have hslices := map_slice_rangesFrom [] (text.splitOn '\n')
    rw [List.nil_append, List.intercalate_splitOn] at hslices
    have hmap : (lineRanges text).map (slice text) = (text.splitOn '\n').map String.ofList := hslices
    have hlines : (text.splitOn '\n').map (String.toList ∘ String.ofList) = text.splitOn '\n' := by
      simp [Function.comp_def]
    have hbreak : "\n".toList = ['\n'] := rfl
    rw [hmap, ← String.toList_inj, String.toList_intercalate, hbreak, List.map_map, hlines, List.intercalate_splitOn,
      String.toList_ofList]

theorem line_spans_tile_text (text : List Char) :
    let count := text.count '\n' + 1
    (∃ spans, (List.range count).map (fun i => lineSpan? text (i + 1) (i + 1)) = spans.map some ∧ Tiling text spans) ∧
    (∀ first last, lineSpan? text first last = none ↔ first = 0 ∨ last < first ∨ count < first) ∧
    (∀ first last, 0 < first → first ≤ last → first ≤ count → ∃ s t,
      lineSpan? text first first = some s ∧ lineSpan? text (min last count) (min last count) = some t ∧
        lineSpan? text first last = some ⟨s.start, t.stop⟩) ∧
    ∀ offset, offset ≤ width text → ∃ s,
      lineSpan? text (lineOf text offset) (lineOf text offset) = some s ∧ s.start ≤ offset ∧ offset ≤ s.stop := by
  intro count
  have hlength : (lineRanges text).length = count := length_lineRanges text
  refine ⟨⟨lineRanges text, ?_, lineRanges_tiling text⟩, fun _ _ => lineSpan?_eq_none_iff,
    fun first last hfirst hlast hin => ?_, fun offset hoffset => ?_⟩
  · refine List.ext_getElem? fun i => ?_
    rw [List.getElem?_map, List.getElem?_map]
    by_cases hi : i < count
    · obtain ⟨s, hs⟩ : ∃ s, (lineRanges text)[i]? = some s := ⟨_, List.getElem?_eq_getElem (hlength ▸ hi)⟩
      rw [List.getElem?_range hi, Option.map_some, hs, lineSpan?_self hs]
      rfl
    · rw [List.getElem?_eq_none (by simpa using hi), List.getElem?_eq_none (by omega)]
      rfl
  · obtain ⟨s, hs⟩ : ∃ s, (lineRanges text)[first - 1]? = some s := ⟨_, List.getElem?_eq_getElem (by omega)⟩
    obtain ⟨t, ht⟩ : ∃ t, (lineRanges text)[min last count - 1]? = some t := ⟨_, List.getElem?_eq_getElem (by omega)⟩
    have hself := lineSpan?_self hs
    have hend := lineSpan?_self ht
    rw [Nat.sub_add_cancel (by omega)] at hself hend
    exact ⟨s, t, hself, hend, lineSpan?_of_ranges hfirst hlast hs ht⟩
  · obtain ⟨s, hs, hstart, hstop⟩ := lineSpan?_lineOf hoffset
    exact ⟨s, hs, hstart ▸ lineStart_le text offset, hstop⟩

theorem line_spans_tile_text_accents :
    let text := "é\n\nb".toList
    (∃ s t, lineSpan? text 2 2 = some s ∧ lineSpan? text 3 3 = some t ∧ s = ⟨3, 3⟩ ∧ t = ⟨4, 5⟩ ∧
      lineSpan? text 2 9 = some ⟨s.start, t.stop⟩) ∧
    ∃ s, lineSpan? text 1 1 = some s ∧ s = ⟨0, 2⟩ ∧ s.start ≤ 1 ∧ 1 ≤ s.stop := by
  intro text
  obtain ⟨-, -, hspan, hline⟩ := line_spans_tile_text text
  obtain ⟨s, t, hs, ht, hrange⟩ := hspan 2 9 (by decide) (by decide) (by decide)
  obtain ⟨u, hu, hoffset⟩ := hline 1 (by decide)
  exact ⟨⟨s, t, hs, ht, (Option.some.inj hs).symm, (Option.some.inj ht).symm, hrange⟩,
    u, hu, (Option.some.inj hu).symm, hoffset⟩

end MockDialect.Text
