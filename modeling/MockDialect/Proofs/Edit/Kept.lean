import MockDialect.Proofs.Edit.Apart

namespace MockDialect.Edit

open Text

/-- The characters of a text that are to be kept, by the offsets at which they begin. The text itself begins at
`offset`. -/
def kept (keep : Nat → Bool) : Nat → List Char → List Char
  | _, [] => []
  | offset, c :: cs =>
    let rest := kept keep (offset + c.utf8Size) cs
    if keep offset then c :: rest else rest

variable {keep : Nat → Bool} {offset length done : Nat} {text rest result : List Char} {e : Edit}
  {edits : List Edit}

theorem kept_append (keep : Nat → Bool) (offset : Nat) (xs ys : List Char) :
    kept keep offset (xs ++ ys) = kept keep offset xs ++ kept keep (offset + width xs) ys := by
  induction xs generalizing offset with
  | nil => rfl
  | cons c xs ih =>
    have hoffset : offset + c.utf8Size + width xs = offset + width (c :: xs) := by
      rw [width_cons]
      omega
    simp only [List.cons_append, kept, ih, hoffset]
    cases keep offset <;> rfl

theorem kept_sublist (keep : Nat → Bool) (offset : Nat) (text : List Char) :
    (kept keep offset text).Sublist text := by
  induction text generalizing offset with
  | nil => exact .slnil
  | cons c cs ih =>
    rw [kept]
    cases keep offset with
    | true => exact (ih _).cons_cons c
    | false => exact (ih _).cons c

theorem kept_eq_nil (h : ∀ n, offset ≤ n → n < offset + width text → keep n = false) :
    kept keep offset text = [] := by
  induction text generalizing offset with
  | nil => rfl
  | cons c cs ih =>
    have hpos := Char.utf8Size_pos c
    rw [width_cons] at h
    have hrest : kept keep (offset + c.utf8Size) cs = [] := ih fun n hle hlt => h n (by omega) (by omega)
    simp [kept, hrest, h offset (Nat.le_refl _) (by omega)]

theorem filter_kept_congr {keep' : Nat → Bool} {p : Char → Bool}
    (h : ∀ n c, CharAt text n c → p c = true → keep (offset + n) = keep' (offset + n)) :
    (kept keep offset text).filter p = (kept keep' offset text).filter p := by
  induction text generalizing offset with
  | nil => rfl
  | cons c cs ih =>
    have hrest : (kept keep (offset + c.utf8Size) cs).filter p = (kept keep' (offset + c.utf8Size) cs).filter p := by
      refine ih fun n d hd hp => ?_
      obtain ⟨before, after, rfl, rfl⟩ := hd
      have hbehind := h _ d ⟨c :: before, after, rfl, rfl⟩ hp
      rwa [width_cons, ← Nat.add_assoc] at hbehind
    have hfirst := h 0 c ⟨[], cs, rfl, rfl⟩
    rw [Nat.add_zero] at hfirst
    rw [kept, kept]
    cases hp : p c with
    | true =>
      rw [hfirst hp]
      cases keep' offset <;> simp [hp, hrest]
    | false => cases keep offset <;> cases keep' offset <;> simp [hp, hrest]

theorem splice_cons_eq_ok (h : splice length done rest (e :: edits) = .ok result) :
    ∃ gap removed remaining others, rest = gap ++ (removed ++ remaining) ∧ done + width gap = e.span.start ∧
      e.span.start + width removed = e.span.stop ∧ splice length e.span.stop remaining edits = .ok others ∧
      result = gap ++ e.replacement.toList ++ others := by
  rw [splice] at h
  split at h
  case isTrue => cases h
  case isFalse hdone =>
    split at h
    case h_1 => cases h
    case h_2 gap after hgap =>
      split at h
      case isTrue => cases h
      case isFalse hordered =>
        split at h
        case h_1 => cases h
        case h_2 removed remaining hremoved =>
          split at h
          case h_2 => cases h
          case h_1 others hothers =>
            obtain ⟨rfl, hgapWidth⟩ := eq_append_of_split? hgap
            obtain ⟨rfl, hremovedWidth⟩ := eq_append_of_split? hremoved
            exact ⟨gap, removed, remaining, others, rfl, by omega, by omega, hothers, (Except.ok.inj h).symm⟩

theorem kept_sublist_of_splice (hkeep : ∀ e ∈ edits, ∀ n, e.span.start ≤ n → n < e.span.stop → keep n = false)
    (h : splice length done rest edits = .ok result) : (kept keep done rest).Sublist result := by
  induction edits generalizing done rest result with
  | nil =>
    obtain rfl := Except.ok.inj h
    exact kept_sublist keep done rest
  | cons e edits ih =>
    obtain ⟨gap, removed, remaining, others, rfl, hgap, hremoved, hothers, rfl⟩ := splice_cons_eq_ok h
    have hnone : kept keep e.span.start removed = [] := by
      refine kept_eq_nil fun n hle hlt => hkeep e (.head edits) n hle ?_
      rwa [hremoved] at hlt
    have hrest := ih (fun d hd => hkeep d (.tail e hd)) hothers
    rw [kept_append, hgap, kept_append, hnone, hremoved, List.nil_append, List.append_assoc]
    exact (kept_sublist keep done gap).append (hrest.trans (List.sublist_append_right _ _))

theorem kept_sublist_of_preview {plan : Plan} {source made : String} (h : plan.preview source = .ok made)
    (hkeep : ∀ e ∈ plan.edits, ∀ n, e.span.start ≤ n → n < e.span.stop → keep n = false) :
    (kept keep 0 source.toList).Sublist made.toList := by
  unfold Plan.preview applyEdits at h
  split at h
  case h_2 => cases h
  case h_1 chars hsplice =>
    obtain rfl := Except.ok.inj h
    rw [String.toList_ofList]
    exact kept_sublist_of_splice hkeep hsplice

theorem standsAt_of_splice (h : splice length done rest edits = .ok result) (he : e ∈ edits) :
    ∃ offset, StandsAt result offset e.replacement := by
  induction edits generalizing done rest result with
  | nil => cases he
  | cons d edits ih =>
    obtain ⟨gap, _, _, others, -, -, -, hothers, rfl⟩ := splice_cons_eq_ok h
    cases he with
    | head => exact ⟨_, gap, others, rfl, rfl⟩
    | tail _ he =>
      obtain ⟨_, before, after, rfl, -⟩ := ih hothers he
      exact ⟨_, gap ++ d.replacement.toList ++ before, after, by simp, rfl⟩

theorem standsAt_of_preview {plan : Plan} {source made : String} (h : plan.preview source = .ok made)
    (he : e ∈ plan.edits) : ∃ offset, StandsAt made.toList offset e.replacement := by
  unfold Plan.preview applyEdits at h
  split at h
  case h_2 => cases h
  case h_1 chars hsplice =>
    obtain rfl := Except.ok.inj h
    rw [String.toList_ofList]
    exact standsAt_of_splice hsplice he

/-- Whether an edit puts text in the place of other text. -/
def replaces (e : Edit) : Bool := !e.span.isEmpty

theorem replaces_iff : e.replaces = true ↔ e.span.start < e.span.stop := by
  simp only [replaces, Span.isEmpty, Span.length, Bool.not_eq_true', beq_eq_false_iff_ne]
  omega

theorem replaces_of_point (h : e.span = .point offset) : e.replaces = false := by
  simp [replaces, h, Span.point, Span.isEmpty, Span.length]

theorem filter_replaces_sortEdits (h : Compatible text edits)
    (hrow : (edits.filter replaces).Pairwise fun a b => a.span.stop ≤ b.span.start) :
    (sortEdits edits).filter replaces = edits.filter replaces := by
  have hsorted := (h.sorted.stops (inOrder_sortEdits edits)).sublist (List.filter_sublist (p := replaces))
  refine List.Perm.eq_of_pairwise (fun a b ha hb hab hba => ?_) hsorted hrow
    ((Order.sortBy_perm _ edits).filter replaces)
  -- of two replacements only one can come first
  have hfirst := replaces_iff.mp (List.mem_filter.mp ha).2
  have hsecond := replaces_iff.mp (List.mem_filter.mp hb).2
  omega

end MockDialect.Edit
