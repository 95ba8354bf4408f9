import MockDialect.Text.Blank
import MockDialect.Text.Offset

namespace MockDialect.Text

/-- Whether a text can be cut at both ends of a range. -/
def Cuts (text : List Char) (s : Span) : Prop := isBoundary text s.start = true ∧ isBoundary text s.stop = true

/-- A character and the offset at which it begins. -/
def CharAt (text : List Char) (offset : Nat) (c : Char) : Prop :=
  ∃ before after, text = before ++ c :: after ∧ width before = offset

/-- A text that stands in another from an offset on. -/
def StandsAt (text : List Char) (offset : Nat) (part : String) : Prop :=
  ∃ before after, text = before ++ part.toList ++ after ∧ width before = offset

variable {text : List Char}

theorem isBoundary_width (before after : List Char) : isBoundary (before ++ after) (width before) = true := by
  rw [isBoundary, split?_append]
  rfl

theorem isBoundary_iff {n : Nat} :
    isBoundary text n = true ↔ ∃ before after, text = before ++ after ∧ width before = n := by
  constructor
  · intro h
    obtain ⟨⟨before, after⟩, hs⟩ := Option.isSome_iff_exists.mp h
    exact ⟨before, after, eq_append_of_split? hs⟩
  · rintro ⟨before, after, rfl, rfl⟩
    exact isBoundary_width before after

theorem isBoundary_zero (text : List Char) : isBoundary text 0 = true :=
  isBoundary_iff.mpr ⟨[], text, rfl, rfl⟩

theorem isBoundary_end (text : List Char) : isBoundary text (width text) = true :=
  isBoundary_iff.mpr ⟨text, [], by simp, rfl⟩

theorem cuts_middle (before middle after : List Char) :
    Cuts (before ++ middle ++ after) ⟨width before, width before + width middle⟩ := by
  constructor
  · rw [List.append_assoc]
    exact isBoundary_width before (middle ++ after)
  · rw [← width_append]
    exact isBoundary_width (before ++ middle) after

theorem width_pos {cs : List Char} (h : cs ≠ []) : 0 < width cs := by
  cases cs with
  | nil => exact absurd rfl h
  | cons c cs => exact Nat.add_pos_left (Char.utf8Size_pos c) _

theorem le_width_of_isBoundary {n : Nat} (h : isBoundary text n = true) : n ≤ width text := by
  obtain ⟨before, after, rfl, rfl⟩ := isBoundary_iff.mp h
  rw [width_append]
  exact Nat.le_add_right _ _

theorem exists_append_of_width_le {xs ys us vs : List Char} (h : xs ++ ys = us ++ vs)
    (hle : width xs ≤ width us) : ∃ middle, us = xs ++ middle ∧ ys = middle ++ vs := by
  rcases List.append_eq_append_iff.mp h with ⟨middle, hus, hys⟩ | ⟨middle, hxs, hvs⟩
  · exact ⟨middle, hus, hys⟩
  · cases middle with
    | nil => exact ⟨[], by simpa using hxs.symm, by simpa using hvs.symm⟩
    | cons c cs =>
      rw [hxs, width_append, width_cons] at hle
      have := Char.utf8Size_pos c
      omega

theorem exists_split? {before after : List Char} {n : Nat} (h : isBoundary (before ++ after) n = true)
    (hle : width before ≤ n) : ∃ middle rest, split? (n - width before) after = some (middle, rest) ∧
      after = middle ++ rest ∧ width (before ++ middle) = n := by
  obtain ⟨us, vs, hcut, rfl⟩ := isBoundary_iff.mp h
  obtain ⟨middle, rfl, rfl⟩ := exists_append_of_width_le hcut hle
  refine ⟨middle, vs, ?_, rfl, rfl⟩
  rw [width_append, Nat.add_sub_cancel_left]
  exact split?_append middle vs

theorem slice?_of_cuts {s : Span} (hcuts : Cuts text s) (hle : s.start ≤ s.stop) :
    ∃ before middle after, text = before ++ (middle ++ after) ∧ width before = s.start ∧
      width (before ++ middle) = s.stop ∧ slice? text s = some middle := by
  obtain ⟨before, behind, rfl, hstart⟩ := isBoundary_iff.mp hcuts.1
  obtain ⟨middle, after, hsplit, rfl, hstop⟩ := exists_split? hcuts.2 (hstart ▸ hle)
  refine ⟨before, middle, after, rfl, hstart, hstop, ?_⟩
  rw [slice?, if_pos hle, ← hstart, split?_append]
  rw [← hstop] at hsplit ⊢
  simp [hsplit]

theorem slice_middle (before middle after : List Char) :
    slice (before ++ middle ++ after) ⟨width before, width before + width middle⟩ = String.ofList middle := by
  have hstop : width before + width middle - width before = width middle := by omega
  rw [slice, slice?, if_pos (Nat.le_add_right _ _), List.append_assoc, split?_append]
  simp only [hstop, split?_append, Option.map_some, Option.getD_some]

theorem slice_append {a b c : Nat} (ha : isBoundary text a = true) (hb : isBoundary text b = true)
    (hc : isBoundary text c = true) (hab : a ≤ b) (hbc : b ≤ c) :
    (slice text ⟨a, c⟩).toList = (slice text ⟨a, b⟩).toList ++ (slice text ⟨b, c⟩).toList := by
  obtain ⟨before, rest, rfl, rfl⟩ := isBoundary_iff.mp ha
  obtain ⟨front, more, hfront, rfl⟩ := isBoundary_iff.mp hb
  obtain ⟨first, rfl, hrest⟩ := exists_append_of_width_le hfront hab
  subst hrest
  obtain ⟨front, after, hfront, rfl⟩ := isBoundary_iff.mp hc
  rw [← List.append_assoc] at hfront
  obtain ⟨second, rfl, hmore⟩ := exists_append_of_width_le hfront hbc
  subst hmore
  have hwhole := slice_middle before (first ++ second) after
  have hleft := slice_middle before first (second ++ after)
  have hright := slice_middle (before ++ first) second after
  simp only [List.append_assoc, width_append, Nat.add_assoc] at hwhole hleft hright ⊢
  rw [hwhole, hleft, hright]
  simp only [String.toList_ofList]

theorem width_slice {s : Span} (hcuts : Cuts text s) (hle : s.start ≤ s.stop) :
    width (slice text s).toList = s.stop - s.start := by
  obtain ⟨before, middle, after, -, hbefore, hmiddle, hslice⟩ := slice?_of_cuts hcuts hle
  rw [slice, hslice, Option.getD_some, String.toList_ofList, ← hmiddle, ← hbefore, width_append,
    Nat.add_sub_cancel_left]

theorem lt_of_slice_ne_empty {s : Span} (h : slice text s ≠ "") : s.start < s.stop := by
  refine Nat.lt_of_not_le fun hle => h ?_
  rw [slice, slice?]
  split
  case isFalse => rfl
  case isTrue =>
    rw [Nat.sub_eq_zero_of_le hle]
    cases split? s.start text with
    | none => rfl
    | some cut => cases hafter : cut.2 <;> simp [hafter, split?]

theorem eq_of_width_eq {xs ys us vs : List Char} (h : xs ++ ys = us ++ vs) (hwidth : width xs = width us) : xs = us := by
  obtain ⟨middle, rfl, -⟩ := exists_append_of_width_le h (Nat.le_of_eq hwidth)
  cases middle with
  | nil => exact (List.append_nil xs).symm
  | cons c cs =>
    have hpos := Char.utf8Size_pos c
    rw [width_append, width_cons] at hwidth
    omega

theorem CharAt.unique {offset : Nat} {c d : Char} (hc : CharAt text offset c) (hd : CharAt text offset d) : c = d := by
  obtain ⟨before, after, rfl, rfl⟩ := hc
  obtain ⟨before', after', htext, hwidth⟩ := hd
  obtain rfl := eq_of_width_eq htext hwidth.symm
  exact (List.cons.inj (List.append_cancel_left htext)).1

theorem CharAt.isBoundary_next {offset : Nat} {c : Char} (h : CharAt text offset c) :
    isBoundary text (offset + c.utf8Size) = true := by
  obtain ⟨before, after, rfl, rfl⟩ := h
  exact isBoundary_iff.mpr ⟨before ++ [c], after, by simp, by simp [width_append]⟩

theorem CharAt.mem_slice {offset : Nat} {c : Char} {s : Span} (h : CharAt text offset c) (hcuts : Cuts text s)
    (hstart : s.start ≤ offset) (hstop : offset < s.stop) : c ∈ (slice text s).toList := by
  obtain ⟨before, middle, after, htext, hbefore, hmiddle, hslice⟩ := slice?_of_cuts hcuts (by omega)
  obtain ⟨front, back, hchar, rfl⟩ := h
  rw [slice, hslice, Option.getD_some, String.toList_ofList]
  rw [htext] at hchar
  obtain ⟨inner, rfl, hrest⟩ := exists_append_of_width_le hchar (by omega)
  simp only [width_append] at hmiddle hstop
  obtain ⟨more, rfl, hmore⟩ := exists_append_of_width_le hrest.symm (by omega)
  cases more with
  | nil => simp at hmiddle; omega
  | cons d more =>
    obtain ⟨rfl, -⟩ := List.cons.inj hmore
    simp

theorem CharAt.head?_slice {c : Char} {s : Span} (h : CharAt text s.start c) (hcuts : Cuts text s)
    (hlt : s.start < s.stop) : (slice text s).toList.head? = some c := by
  obtain ⟨before, middle, after, htext, hbefore, hmiddle, hslice⟩ := slice?_of_cuts hcuts (Nat.le_of_lt hlt)
  obtain ⟨front, back, hchar, hfront⟩ := h
  rw [htext] at hchar
  obtain ⟨between, rfl, hrest⟩ := exists_append_of_width_le hchar (by omega)
  obtain rfl : between = [] := by
    refine Decidable.byContradiction fun hne => ?_
    have hwide := width_pos hne
    rw [width_append] at hfront
    omega
  rw [slice, hslice, Option.getD_some, String.toList_ofList]
  cases middle with
  | nil =>
    rw [List.append_nil] at hmiddle
    omega
  | cons d middle => exact congrArg some (List.cons.inj hrest).1

theorem charAt_of_head?_slice {c : Char} {s : Span} (hcuts : Cuts text s) (hle : s.start ≤ s.stop)
    (h : (slice text s).toList.head? = some c) : CharAt text s.start c := by
  obtain ⟨before, middle, after, htext, hbefore, -, hslice⟩ := slice?_of_cuts hcuts hle
  rw [slice, hslice, Option.getD_some, String.toList_ofList] at h
  obtain ⟨rest, rfl⟩ := List.head?_eq_some_iff.mp h
  exact ⟨before, rest ++ after, htext, hbefore⟩

theorem CharAt.not_blank_range {offset : Nat} {c : Char} {s : Span} (h : CharAt text offset c)
    (hc : isBlank c = false) (hcuts : Cuts text s) (hblank : allBlank (slice text s).toList = true) :
    offset < s.start ∨ s.stop ≤ offset := by
  by_cases hin : s.start ≤ offset ∧ offset < s.stop
  · have hmem := h.mem_slice hcuts hin.1 hin.2
    rw [List.all_eq_true.mp hblank c hmem] at hc
    cases hc
  · omega

theorem StandsAt.charAt {offset : Nat} {part : String} (h : StandsAt text offset part)
    (front : List Char) (c : Char) (back : List Char) (hpart : part.toList = front ++ c :: back) :
    CharAt text (offset + width front) c := by
  obtain ⟨before, after, rfl, rfl⟩ := h
  exact ⟨before ++ front, back ++ after, by simp [hpart], width_append before front⟩

theorem StandsAt.inner {offset : Nat} {part : String} (h : StandsAt text offset part)
    (front : List Char) (inner : String) (back : List Char) (hpart : part.toList = front ++ inner.toList ++ back) :
    StandsAt text (offset + width front) inner := by
  obtain ⟨before, after, rfl, rfl⟩ := h
  exact ⟨before ++ front, back ++ after, by simp [hpart], width_append before front⟩

theorem StandsAt.isBoundary {offset : Nat} {part : String} (h : StandsAt text offset part) :
    isBoundary text offset = true := by
  obtain ⟨before, after, rfl, rfl⟩ := h
  exact (cuts_middle before part.toList after).1

theorem StandsAt.slice {offset : Nat} {part : String} (h : StandsAt text offset part) :
    slice text ⟨offset, offset + width part.toList⟩ = part := by
  obtain ⟨before, after, rfl, rfl⟩ := h
  rw [slice_middle, String.ofList_toList]

end MockDialect.Text
