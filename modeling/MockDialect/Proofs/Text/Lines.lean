import MockDialect.Proofs.Text.Boundary
import MockDialect.Text.Line

namespace MockDialect.Text

theorem mem_breakEnds_iff {text : List Char} {offset n : Nat} : n ∈ breakEnds offset text ↔
    ∃ before after, text = before ++ '\n' :: after ∧ n = offset + width before + 1 := by
  induction text generalizing offset with
  | nil => simp [breakEnds]
  | cons c cs ih =>
    -- a break is the first character, or it stands behind it
    have hcons : (∃ before after, c :: cs = before ++ '\n' :: after ∧ n = offset + width before + 1) ↔
        (c = '\n' ∧ n = offset + 1) ∨ ∃ before after, cs = before ++ '\n' :: after ∧
          n = offset + c.utf8Size + width before + 1 := by
      constructor
      · rintro ⟨before, after, htext, rfl⟩
        cases before with
        | nil => exact .inl ⟨(List.cons.inj htext).1, rfl⟩
        | cons b before =>
          obtain ⟨rfl, rfl⟩ := List.cons.inj htext
          exact .inr ⟨before, after, rfl, by rw [width_cons]; omega⟩
      · rintro (⟨rfl, rfl⟩ | ⟨before, after, rfl, rfl⟩)
        · exact ⟨[], cs, rfl, rfl⟩
        · exact ⟨c :: before, after, rfl, by rw [width_cons]; omega⟩
    rw [hcons, breakEnds, ← ih]
    split
    case isTrue hc =>
      have hsize : c.utf8Size = 1 := by rw [hc]; rfl
      rw [List.mem_cons, hsize, and_iff_right hc]
    case isFalse hc => simp [hc]

theorem breakEnds_bounds {offset n : Nat} {text : List Char} (h : n ∈ breakEnds offset text) :
    ∃ before after, text = before ++ after ∧ n = offset + width before ∧ 0 < width before := by
  obtain ⟨before, after, rfl, rfl⟩ := mem_breakEnds_iff.mp h
  have hwidth : width (before ++ ['\n']) = width before + 1 := by
    rw [width_append]
    rfl
  exact ⟨before ++ ['\n'], after, by simp, by omega, by omega⟩

theorem breakEnds_ascending (offset : Nat) (text : List Char) : (breakEnds offset text).Pairwise (· < ·) := by
  induction text generalizing offset with
  | nil => exact .nil
  | cons c cs ih =>
    rw [breakEnds]
    split
    · refine .cons (fun n hn => ?_) (ih _)
      obtain ⟨before, after, -, rfl, hpos⟩ := breakEnds_bounds hn
      omega
    · exact ih _

variable {text : List Char} {n offset : Nat}

theorem isBoundary_of_mem_breakEnds (h : n ∈ breakEnds 0 text) : isBoundary text n = true := by
  obtain ⟨before, after, rfl, rfl, -⟩ := breakEnds_bounds h
  exact isBoundary_iff.mpr ⟨before, after, rfl, by simp⟩

theorem isBoundary_of_mem_lineStarts (h : n ∈ lineStarts text) : isBoundary text n = true := by
  rcases List.mem_cons.mp h with rfl | h
  · exact isBoundary_zero text
  · exact isBoundary_of_mem_breakEnds h

theorem lineStarts_ascending (text : List Char) : (lineStarts text).Pairwise (· < ·) := by
  refine .cons (fun n hn => ?_) (breakEnds_ascending 0 text)
  obtain ⟨before, after, -, rfl, hpos⟩ := breakEnds_bounds hn
  omega

theorem lineStart_mem_takeWhile (text : List Char) (offset : Nat) :
    lineStart text offset ∈ (lineStarts text).takeWhile (· ≤ offset) := by
  have hne : (lineStarts text).takeWhile (· ≤ offset) ≠ [] := by simp [lineStarts]
  rw [lineStart, List.getLastD_eq_getLast?, List.getLast?_eq_some_getLast hne]
  exact List.getLast_mem hne

theorem lineStart_mem (text : List Char) (offset : Nat) : lineStart text offset ∈ lineStarts text :=
  (List.takeWhile_sublist _).subset (lineStart_mem_takeWhile text offset)

theorem lineStart_le (text : List Char) (offset : Nat) : lineStart text offset ≤ offset := by
  simpa using List.all_eq_true.mp List.all_takeWhile _ (lineStart_mem_takeWhile text offset)

theorem le_getLastD_takeWhile {starts : List Nat} {first : Nat} (h : (first :: starts).Pairwise (· < ·))
    (hn : n ∈ first :: starts) (hle : n ≤ offset) : n ≤ (starts.takeWhile (· ≤ offset)).getLastD first := by
  induction starts generalizing first n with
  | nil => exact Nat.le_of_eq (List.mem_singleton.mp hn)
  | cons next starts ih =>
    obtain ⟨hfirst, hnext⟩ := List.pairwise_cons.mp h
    by_cases hin : next ≤ offset
    · rw [List.takeWhile_cons_of_pos (by simpa using hin), List.getLastD_cons]
      rcases List.mem_cons.mp hn with rfl | hn
      · exact Nat.le_trans (Nat.le_of_lt (hfirst next (.head starts))) (ih hnext (.head starts) hin)
      · exact ih hnext hn hle
    · rw [List.takeWhile_cons_of_neg (by simpa using hin)]
      rcases List.mem_cons.mp hn with rfl | hn
      · exact Nat.le_refl n
      · rcases List.mem_cons.mp hn with rfl | hn
        · exact absurd hle hin
        · have := (List.pairwise_cons.mp hnext).1 n hn
          omega

theorem le_lineStart (hn : n ∈ lineStarts text) (hle : n ≤ offset) : n ≤ lineStart text offset := by
  rw [lineStart, lineStarts, List.takeWhile_cons_of_pos (by simp), List.getLastD_cons]
  exact le_getLastD_takeWhile (lineStarts_ascending text) hn hle

theorem nextLineStart_spec (h : offset ≤ width text) :
    offset ≤ nextLineStart text offset ∧ isBoundary text (nextLineStart text offset) = true := by
  unfold nextLineStart
  cases hfind : (lineStarts text).find? (offset < ·) with
  | none => exact ⟨h, isBoundary_end text⟩
  | some n =>
    have hlt : offset < n := by simpa using List.find?_some hfind
    exact ⟨Nat.le_of_lt hlt, isBoundary_of_mem_lineStarts (List.mem_of_find?_eq_some hfind)⟩

end MockDialect.Text
