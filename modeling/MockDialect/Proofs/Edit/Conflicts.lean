import MockDialect.Proofs.Edit.Apart

namespace MockDialect.Edit

open Text

variable {a b : Edit} {edits others : List Edit} {revision : UInt64} {summary : String}

theorem exists_make_iff : (∃ plan, Plan.make revision edits summary = .ok plan) ↔
    (sortEdits edits).IsChain fun a b => collide a b = false := by
  rw [← collision?_eq_none_iff, Plan.make]
  cases collision? (sortEdits edits) <;> simp

theorem stop_le_of_not_collide (h : collide a b = false) : a.span.stop ≤ b.span.start := by
  simp only [collide, Bool.or_eq_false_iff, decide_eq_false_iff_not] at h
  omega

theorem pairwise_of_neighbours (hordered : ∀ e ∈ edits, e.span.start ≤ e.span.stop)
    (h : edits.IsChain fun a b => a.span.stop ≤ b.span.start) :
    edits.Pairwise fun a b => a.span.stop ≤ b.span.start := by
  induction edits with
  | nil => exact .nil
  | cons a edits ih =>
    obtain ⟨hnext, hchain⟩ := List.isChain_cons.mp h
    have hrest := ih (fun e he => hordered e (.tail a he)) hchain
    apply List.Pairwise.cons _ hrest
    intro c hc
    cases edits with
    | nil => cases hc
    | cons b edits =>
      have hab : a.span.stop ≤ b.span.start := hnext b rfl
      have hb := hordered b (.tail a (.head edits))
      cases hc with
      | head => exact hab
      | tail _ hc =>
        have hbc := (List.pairwise_cons.mp hrest).1 c hc
        omega

theorem exists_make_iff_apart (hordered : ∀ e ∈ edits, e.span.start ≤ e.span.stop) :
    (∃ plan, Plan.make revision edits summary = .ok plan) ↔ edits.Pairwise fun a b => Apart a.span b.span := by
  have hperm : (sortEdits edits).Perm edits := Order.sortBy_perm _ edits
  have hsorted : ∀ e ∈ sortEdits edits, e.span.start ≤ e.span.stop := fun e he => hordered e (hperm.mem_iff.mp he)
  rw [exists_make_iff, ← hperm.pairwise_iff fun hab => hab.symm]
  constructor
  · intro hfree
    have hstops := pairwise_of_neighbours hsorted (hfree.imp fun _ _ => stop_le_of_not_collide)
    exact hstops.imp .inl
  · intro hapart
    have hstops := stops_of_apart hsorted hapart (inOrder_sortEdits edits)
    exact (hstops.imp_of_mem fun ha _ => (collide_eq_false_iff (hsorted _ ha)).mpr).isChain

theorem eq_of_not_before {s t : Span} (hst : s.isBefore t = false) (hts : t.isBefore s = false) : s = t := by
  obtain ⟨start, stop⟩ := s
  obtain ⟨start', stop'⟩ := t
  simp only [Span.isBefore, Bool.or_eq_false_iff, Bool.and_eq_false_iff, decide_eq_false_iff_not,
    beq_eq_false_iff_ne] at hst hts
  have hstart : start = start' := by omega
  have hstop : stop = stop' := by omega
  rw [hstart, hstop]

theorem filter_insertBy (s : Span) :
    (Order.insertBy (fun a b => !b.span.isBefore a.span) a edits).filter (·.span = s) =
      (a :: edits).filter (·.span = s) := by
  induction edits with
  | nil => rfl
  | cons b edits ih =>
    rw [Order.insertBy]
    split
    case isTrue => rfl
    case isFalse hba =>
      rw [Bool.not_eq_true', Bool.not_eq_false] at hba
      have hne : a.span = s → b.span ≠ s := by
        rintro rfl heq
        rw [heq] at hba
        rw [isBefore_asymm hba] at hba
        cases hba
      rw [List.filter_cons, ih]
      by_cases ha : a.span = s
      · simp [ha, hne ha]
      · simp [ha, List.filter_cons]

theorem filter_sortEdits (edits : List Edit) (s : Span) :
    (sortEdits edits).filter (·.span = s) = edits.filter (·.span = s) := by
  induction edits with
  | nil => rfl
  | cons a edits ih =>
    calc (sortEdits (a :: edits)).filter (·.span = s)
      _ = (a :: sortEdits edits).filter (·.span = s) := filter_insertBy s
      _ = (a :: edits).filter (·.span = s) := by rw [List.filter_cons, List.filter_cons, ih]

theorem eq_of_filter_eq (hedits : InOrder edits) (hothers : InOrder others)
    (h : ∀ s : Span, edits.filter (·.span = s) = others.filter (·.span = s)) : edits = others := by
  induction edits generalizing others with
  | nil =>
    cases others with
    | nil => rfl
    | cons b others => simpa using h b.span
  | cons a edits ih =>
    cases others with
    | nil => simpa using h a.span
    | cons b others =>
      obtain ⟨ha, hedits⟩ := List.pairwise_cons.mp hedits
      obtain ⟨hb, hrest⟩ := List.pairwise_cons.mp hothers
      have hirrefl (s : Span) : s.isBefore s = false := by simp [Span.isBefore]
      -- each of the two comes first on one side, so neither range is before the other
      have hba : b.span.isBefore a.span = false := by
        have hmem : b ∈ (a :: edits).filter (·.span = b.span) := by
          rw [h b.span]
          simp
        cases List.mem_of_mem_filter hmem with
        | head => exact hirrefl _
        | tail _ hmem => exact ha b hmem
      have hab : a.span.isBefore b.span = false := by
        have hmem : a ∈ (b :: others).filter (·.span = a.span) := by
          rw [← h a.span]
          simp
        cases List.mem_of_mem_filter hmem with
        | head => exact hirrefl _
        | tail _ hmem => exact hb a hmem
      have hspan := eq_of_not_before hab hba
      have hhead := h a.span
      simp only [List.filter_cons, hspan, decide_true, if_true, List.cons.injEq] at hhead
      obtain ⟨rfl, -⟩ := hhead
      congr 1
      apply ih hedits hrest
      intro s
      have hs := h s
      by_cases has : a.span = s <;> simpa [List.filter_cons, has] using hs

theorem applyEdits_not_overlapping (h : edits.IsChain fun a b => a.span.stop ≤ b.span.start) (text : List Char)
    (first second : Nat) : applyEdits text edits ≠ .error (.overlapping first second) := by
  intro herror
  obtain ⟨front, e, back, rfl, -, -, hblame⟩ := applyEdits_eq_error_iff.mp herror
  have hbehind : reached 0 front ≤ e.span.start := by
    induction front using List.reverseRecOn with
    | nil => exact Nat.zero_le _
    | append_singleton front d =>
      have hstop : reached 0 (front ++ [d]) = d.span.stop := by simp [reached]
      rw [hstop]
      rw [List.append_assoc] at h
      exact (List.isChain_cons_cons.mp h.right_of_append).1
  rw [blame, if_neg (Nat.not_lt.mpr hbehind)] at hblame
  cases hblame

/-- A plan is made of edits whose ranges are in order just if of every two of them one ends before the other begins.
The plan does not depend on the order of edits with different ranges. Whatever the ranges are, a plan that is made
never fails because of two edits that overlap. -/
theorem plan_made_iff_apart (revision : UInt64) (summary : String) (edits : List Edit) :
    ((∀ e ∈ edits, e.span.start ≤ e.span.stop) →
      ((∃ plan, Plan.make revision edits summary = .ok plan) ↔
        ∀ i j : Fin edits.length, i ≠ j → Apart (edits.get i).span (edits.get j).span)) ∧
    (∀ others, others.Perm edits → (∀ s : Span, others.filter (·.span = s) = edits.filter (·.span = s)) →
      Plan.make revision others summary = Plan.make revision edits summary) ∧
    ∀ plan, Plan.make revision edits summary = .ok plan → ∀ text first second,
      plan.preview text ≠ .error (.overlapping first second) ∧
        plan.apply text ≠ .error (.overlapping first second) := by
  refine ⟨?_, ?_, ?_⟩
  · intro hordered
    rw [exists_make_iff_apart hordered, List.pairwise_iff_get]
    constructor
    · intro h i j hij
      by_cases hlt : i < j
      · exact h i j hlt
      · exact (h j i (by omega)).symm
    · intro h i j hij
      exact h i j (by omega)
  · intro others _ h
    have hsame : sortEdits others = sortEdits edits := by
      apply eq_of_filter_eq (inOrder_sortEdits others) (inOrder_sortEdits edits)
      intro s
      rw [filter_sortEdits, filter_sortEdits, h s]
    rw [Plan.make, Plan.make, hsame]
  · intro plan hplan text first second
    have hchain := (exists_make_iff.mp ⟨plan, hplan⟩).imp fun _ _ => stop_le_of_not_collide
    rw [← edits_of_make hplan] at hchain
    have hpreview : plan.preview text ≠ .error (.overlapping first second) := by
      intro h
      apply applyEdits_not_overlapping hchain text.toList first second
      rw [Plan.preview] at h
      split at h
      · cases h
      · next error herror =>
        rw [herror, Except.error.inj h]
    refine ⟨hpreview, ?_⟩
    intro h
    rw [Plan.apply] at h
    split at h
    · exact hpreview h
    · cases h

/-- Two insertions at the start of a replacement and one at its end: they keep their order, and with a reversed range
in place of the last one the plan fails for that range alone. -/
theorem plan_made_iff_apart_insertions :
    let edits := [replace ⟨1, 2⟩ "B", insert 1 "x", insert 2 "z", insert 1 "y"]
    let others := [insert 2 "z", insert 1 "x", insert 1 "y", replace ⟨1, 2⟩ "B"]
    (∀ i j : Fin edits.length, i ≠ j → Apart (edits.get i).span (edits.get j).span) ∧
      Plan.make 0 others "" = Plan.make 0 edits "" ∧
      (∃ plan, Plan.make 0 edits "" = .ok plan ∧ plan.preview "abc" = .ok "axyBzc") ∧
      ∃ plan, Plan.make 0 [replace ⟨1, 2⟩ "B", replace ⟨3, 2⟩ ""] "" = .ok plan ∧
        plan.preview "abc" ≠ .error (.overlapping 2 3) ∧ plan.preview "abc" = .error (.outOfBounds 3 2 3) := by
  intro edits others
  have hordered : ∀ e ∈ edits, e.span.start ≤ e.span.stop := by decide
  have hmade : ∃ plan, Plan.make 0 edits "" = .ok plan ∧ plan.preview "abc" = .ok "axyBzc" :=
    ⟨⟨0, sortEdits edits, ""⟩, by decide, by decide⟩
  have hapart := ((plan_made_iff_apart 0 "" edits).1 hordered).mp (hmade.imp fun _ => And.left)
  have hperm : others.Perm edits := by decide
  have hsame : ∀ s : Span, others.filter (·.span = s) = edits.filter (·.span = s) := by
    intro s
    by_cases hempty : s = ⟨1, 1⟩
    · rw [hempty]
      decide
    by_cases hfull : s = ⟨1, 2⟩
    · rw [hfull]
      decide
    by_cases hend : s = ⟨2, 2⟩
    · rw [hend]
      decide
    simp [others, edits, insert, replace, Span.point, Ne.symm hempty, Ne.symm hfull, Ne.symm hend]
  have hreversed : Plan.make 0 [replace ⟨1, 2⟩ "B", replace ⟨3, 2⟩ ""] "" =
    .ok ⟨0, [replace ⟨1, 2⟩ "B", replace ⟨3, 2⟩ ""], ""⟩ := by decide
  exact ⟨hapart, (plan_made_iff_apart 0 "" edits).2.1 others hperm hsame, hmade, _, hreversed,
    ((plan_made_iff_apart 0 "" _).2.2 _ hreversed "abc" 2 3).1, by decide⟩

end MockDialect.Edit
