import MockDialect.Edit.Plan
import MockDialect.Proofs.Edit.Splicing

namespace MockDialect.Edit

open Text

/-- An edit that stays in a range. -/
structure FitsIn (text : List Char) (s : Span) (e : Edit) : Prop extends Fits text e where
  starts : s.start ≤ e.span.start
  stops : e.span.stop ≤ s.stop

/-- Ranges of which one ends before the other begins. -/
def Apart (s t : Span) : Prop := s.stop ≤ t.start ∨ t.stop ≤ s.start

theorem Apart.symm {s t : Span} (h : Apart s t) : Apart t s := Or.symm h

/-- Edits that can be carried out together. -/
structure Compatible (text : List Char) (edits : List Edit) : Prop where
  fits : ∀ e ∈ edits, e.Fits text
  apart : edits.Pairwise fun a b => Apart a.span b.span

/-- Edits in the order in which they are applied. -/
def InOrder (edits : List Edit) : Prop := edits.Pairwise fun a b => b.span.isBefore a.span = false

variable {text : List Char} {a b : Edit} {edits : List Edit}

theorem fits_of_point {offset : Nat} (hspan : a.span = .point offset) (h : isBoundary text offset = true) :
    a.Fits text := by
  constructor
  · rw [hspan]
    exact Nat.le_refl offset
  · rw [hspan]
    exact ⟨h, h⟩

theorem Fits.compatible (h : a.Fits text) : Compatible text [a] :=
  ⟨List.forall_mem_singleton.mpr h, List.pairwise_singleton _ a⟩

theorem Compatible.append {first second : List Edit} (hfirst : Compatible text first)
    (hsecond : Compatible text second) (hapart : ∀ a ∈ first, ∀ b ∈ second, Apart a.span b.span) :
    Compatible text (first ++ second) where
  fits := List.forall_mem_append.mpr ⟨hfirst.fits, hsecond.fits⟩
  apart := List.pairwise_append.mpr ⟨hfirst.apart, hsecond.apart, hapart⟩

theorem isBefore_trans {s t u : Span} (hst : t.isBefore s = false) (htu : u.isBefore t = false) :
    u.isBefore s = false := by
  simp only [Span.isBefore, Bool.or_eq_false_iff, Bool.and_eq_false_iff, decide_eq_false_iff_not,
    beq_eq_false_iff_ne] at *
  omega

theorem isBefore_asymm {s t : Span} (h : s.isBefore t = true) : t.isBefore s = false := by
  simp only [Span.isBefore, Bool.or_eq_false_iff, Bool.or_eq_true, Bool.and_eq_false_iff, Bool.and_eq_true,
    decide_eq_false_iff_not, decide_eq_true_eq, beq_eq_false_iff_ne, beq_iff_eq] at *
  omega

theorem inOrder_insertBy (h : InOrder edits) :
    InOrder (Order.insertBy (fun a b => !b.span.isBefore a.span) a edits) := by
  induction edits with
  | nil => exact List.pairwise_singleton _ a
  | cons b rest ih =>
    obtain ⟨hb, hrest⟩ := List.pairwise_cons.mp h
    rw [Order.insertBy]
    split
    case isTrue hab =>
      rw [Bool.not_eq_true'] at hab
      refine .cons (fun c hc => ?_) h
      rcases List.mem_cons.mp hc with rfl | hc
      · exact hab
      · exact isBefore_trans hab (hb c hc)
    case isFalse hba =>
      rw [Bool.not_eq_true', Bool.not_eq_false] at hba
      refine .cons (fun c hc => ?_) (ih hrest)
      rcases List.mem_cons.mp ((Order.insertBy_perm _ a rest).mem_iff.mp hc) with rfl | hc
      · exact isBefore_asymm hba
      · exact hb c hc

theorem inOrder_sortEdits (edits : List Edit) : InOrder (sortEdits edits) := by
  induction edits with
  | nil => exact .nil
  | cons a edits ih => exact inOrder_insertBy ih

theorem Compatible.sorted (h : Compatible text edits) : Compatible text (sortEdits edits) where
  fits := fun e he => h.fits e ((Order.sortBy_perm _ edits).mem_iff.mp he)
  apart := ((Order.sortBy_perm _ edits).pairwise_iff fun hab => hab.symm).mpr h.apart

theorem stop_le_start (ha : a.span.start ≤ a.span.stop) (hb : b.span.start ≤ b.span.stop)
    (hapart : Apart a.span b.span) (horder : b.span.isBefore a.span = false) : a.span.stop ≤ b.span.start := by
  simp only [Span.isBefore, Bool.or_eq_false_iff, Bool.and_eq_false_iff, decide_eq_false_iff_not,
    beq_eq_false_iff_ne] at horder
  unfold Apart at hapart
  omega

theorem stops_of_apart (hordered : ∀ e ∈ edits, e.span.start ≤ e.span.stop)
    (hapart : edits.Pairwise fun a b => Apart a.span b.span) (horder : InOrder edits) :
    edits.Pairwise fun a b => a.span.stop ≤ b.span.start :=
  (hapart.and horder).imp_of_mem fun ha hb hab => stop_le_start (hordered _ ha) (hordered _ hb) hab.1 hab.2

theorem Compatible.stops (h : Compatible text edits) (horder : InOrder edits) :
    edits.Pairwise fun a b => a.span.stop ≤ b.span.start :=
  stops_of_apart (fun e he => (h.fits e he).ordered) h.apart horder

theorem collide_eq_false_iff (ha : a.span.start ≤ a.span.stop) :
    collide a b = false ↔ a.span.stop ≤ b.span.start := by
  simp only [collide, Span.isEmpty, Span.length, Bool.or_eq_false_iff, decide_eq_false_iff_not,
    Bool.and_eq_false_iff, Bool.not_eq_false', beq_iff_eq, beq_eq_false_iff_ne]
  omega

theorem collision?_eq_none_iff : collision? edits = none ↔ edits.IsChain fun a b => collide a b = false := by
  induction edits with
  | nil => simp [collision?]
  | cons a rest ih =>
    cases rest with
    | nil => simp [collision?]
    | cons b rest =>
      rw [collision?, List.isChain_cons_cons, ← ih]
      cases collide a b <;> simp

theorem eq_of_make {revision : UInt64} {summary : String} {plan : Plan}
    (h : Plan.make revision edits summary = .ok plan) : plan = ⟨revision, sortEdits edits, summary⟩ := by
  rw [Plan.make] at h
  cases hfound : collision? (sortEdits edits) with
  | some found => simp [hfound] at h
  | none =>
    simp only [hfound] at h
    exact (Except.ok.inj h).symm

theorem edits_of_make {revision : UInt64} {summary : String} {plan : Plan}
    (h : Plan.make revision edits summary = .ok plan) : plan.edits = sortEdits edits :=
  congrArg Plan.edits (eq_of_make h)

theorem Compatible.make (h : Compatible text edits) (revision : UInt64) (summary : String) :
    ∃ plan, Plan.make revision edits summary = .ok plan ∧ plan.revision = revision ∧
      ∃ result, applyEdits text plan.edits = .ok result := by
  have hsorted := h.sorted
  have hstops := hsorted.stops (inOrder_sortEdits edits)
  have hfree : collision? (sortEdits edits) = none :=
    collision?_eq_none_iff.mpr (hstops.imp_of_mem fun ha _ hab =>
      (collide_eq_false_iff (hsorted.fits _ ha).ordered).mpr hab).isChain
  refine ⟨⟨revision, sortEdits edits, summary⟩, ?_, rfl, ?_⟩
  · simp [Plan.make, hfree]
  · have hsequential : Sequential text 0 (sortEdits edits) :=
      sequential_iff.mpr ⟨fun _ _ => Nat.zero_le _, hstops.isChain, hsorted.fits⟩
    exact ⟨_, applyEdits_of_sequential hsequential⟩

end MockDialect.Edit
