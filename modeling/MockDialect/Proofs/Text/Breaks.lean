import MockDialect.Proofs.Text.Lines

namespace MockDialect.Text

/-- An offset right behind a line break. -/
def AfterBreak (text : List Char) (n : Nat) : Prop := ∃ m, CharAt text m '\n' ∧ n = m + 1

variable {text : List Char} {m n offset : Nat} {c : Char} {s : Span}

theorem exists_charAt_of_mem_slice (hcuts : Cuts text s) (hle : s.start ≤ s.stop) (h : c ∈ (slice text s).toList) :
    ∃ offset, CharAt text offset c ∧ s.start ≤ offset ∧ offset < s.stop := by
  obtain ⟨before, middle, after, htext, hbefore, hmiddle, hslice⟩ := slice?_of_cuts hcuts hle
  rw [slice, hslice, Option.getD_some, String.toList_ofList] at h
  obtain ⟨front, back, rfl⟩ := List.append_of_mem h
  have hpos := Char.utf8Size_pos c
  refine ⟨width (before ++ front), ⟨before ++ front, back ++ after, by simp [htext], rfl⟩, ?_, ?_⟩
  · rw [width_append, hbefore]
    exact Nat.le_add_right _ _
  · rw [← hmiddle]
    simp only [width_append, width_cons]
    omega

theorem allBlank_slice_iff (hcuts : Cuts text s) (hle : s.start ≤ s.stop) : allBlank (slice text s).toList = true ↔
    ∀ offset c, CharAt text offset c → s.start ≤ offset → offset < s.stop → isBlank c = true := by
  constructor
  · intro h offset c hchar hstart hstop
    exact List.all_eq_true.mp h c (hchar.mem_slice hcuts hstart hstop)
  · intro h
    refine List.all_eq_true.mpr fun c hc => ?_
    obtain ⟨offset, hchar, hstart, hstop⟩ := exists_charAt_of_mem_slice hcuts hle hc
    exact h offset c hchar hstart hstop

theorem charAt_of_getLast?_slice (hcuts : Cuts text s) (hle : s.start ≤ s.stop)
    (h : (slice text s).toList.getLast? = some c) : ∃ offset, CharAt text offset c ∧ offset + c.utf8Size = s.stop := by
  obtain ⟨before, middle, after, htext, -, hmiddle, hslice⟩ := slice?_of_cuts hcuts hle
  rw [slice, hslice, Option.getD_some, String.toList_ofList] at h
  obtain ⟨front, rfl⟩ := List.getLast?_eq_some_iff.mp h
  refine ⟨width (before ++ front), ⟨before ++ front, after, by simp [htext], rfl⟩, ?_⟩
  rw [← hmiddle]
  simp only [width_append, width_cons, width_nil]
  omega

theorem CharAt.eq_of_stop {d : Char} (hc : CharAt text m c) (hd : CharAt text n d)
    (h : m + c.utf8Size = n + d.utf8Size) : c = d := by
  obtain ⟨before, after, rfl, rfl⟩ := hc
  obtain ⟨before', after', htext, rfl⟩ := hd
  have hcut : (before ++ [c]) ++ after = (before' ++ [d]) ++ after' := by simpa using htext
  have hwidth : width (before ++ [c]) = width (before' ++ [d]) := by
    simpa only [width_append, width_cons, width_nil, Nat.add_zero] using h
  exact (List.cons.inj (List.append_inj' (eq_of_width_eq hcut hwidth) rfl).2).1

theorem mem_breakEnds_zero_iff : n ∈ breakEnds 0 text ↔ AfterBreak text n := by
  rw [mem_breakEnds_iff]
  constructor
  · rintro ⟨before, after, rfl, rfl⟩
    exact ⟨width before, ⟨before, after, rfl, rfl⟩, by omega⟩
  · rintro ⟨_, ⟨before, after, rfl, rfl⟩, rfl⟩
    exact ⟨before, after, rfl, by omega⟩

theorem mem_lineStarts_iff : n ∈ lineStarts text ↔ n = 0 ∨ AfterBreak text n := by
  rw [lineStarts, List.mem_cons, mem_breakEnds_zero_iff]

theorem le_of_break_of_lineStart_le (h : CharAt text m '\n') (hle : lineStart text offset ≤ m) : offset ≤ m := by
  refine Nat.le_of_not_lt fun hlt => ?_
  have hstart := le_lineStart (mem_lineStarts_iff.mpr (.inr ⟨m, h, rfl⟩)) hlt
  omega

theorem find?_past_le {ns : List Nat} (hascending : ns.Pairwise (· < ·)) (h : ns.find? (offset < ·) = some n)
    (hm : m ∈ ns) (hlt : offset < m) : n ≤ m := by
  obtain ⟨-, before, after, rfl, hbefore⟩ := List.find?_eq_some_iff_append.mp h
  rcases List.mem_append.mp hm with hm | hm
  · have hnot := hbefore m hm
    simp only [Bool.not_eq_true', decide_eq_false_iff_not] at hnot
    exact absurd hlt hnot
  · rcases List.mem_cons.mp hm with rfl | hm
    · exact Nat.le_refl m
    · exact Nat.le_of_lt ((List.pairwise_cons.mp (List.pairwise_append.mp hascending).2.1).1 m hm)

theorem nextLineStart_cases (text : List Char) (offset : Nat) :
    AfterBreak text (nextLineStart text offset) ∧ offset < nextLineStart text offset ∨
      nextLineStart text offset = width text ∧ ∀ m, CharAt text m '\n' → m < offset := by
  unfold nextLineStart
  cases hfind : (lineStarts text).find? (offset < ·) with
  | some n =>
    have hlt : offset < n := by simpa using List.find?_some hfind
    rcases mem_lineStarts_iff.mp (List.mem_of_find?_eq_some hfind) with rfl | hbreak
    · cases hlt
    · exact .inl ⟨hbreak, hlt⟩
  | none =>
    refine .inr ⟨rfl, fun m hm => ?_⟩
    have hnot := List.find?_eq_none.mp hfind (m + 1) (mem_lineStarts_iff.mpr (.inr ⟨m, hm, rfl⟩))
    simp only [decide_eq_true_eq] at hnot
    omega

/-- From an offset on, no break stands before the start of the next line but the one right in front of it. -/
theorem nextLineStart_le (h : CharAt text m '\n') (hle : offset ≤ m) : nextLineStart text offset ≤ m + 1 := by
  have hmem := mem_lineStarts_iff.mpr (.inr ⟨m, h, rfl⟩)
  unfold nextLineStart
  cases hfind : (lineStarts text).find? (offset < ·) with
  | some n => exact find?_past_le (lineStarts_ascending text) hfind hmem (Nat.lt_succ_of_le hle)
  | none =>
    have hnot := List.find?_eq_none.mp hfind (m + 1) hmem
    simp only [decide_eq_true_eq] at hnot
    omega

end MockDialect.Text
