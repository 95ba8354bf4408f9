import Mathlib.Algebra.Ring.Nat
import Mathlib.Data.List.Chain
import MockDialect.Edit.Edit
import MockDialect.Proofs.Text.Boundary

namespace MockDialect.Edit

open Text

/-- An edit of a range that is in order and can be cut out of a text. -/
structure Fits (text : List Char) (e : Edit) : Prop where
  ordered : e.span.start ≤ e.span.stop
  cuts : Cuts text e.span

/-- An edit that can be carried out once `done` bytes are dealt with. -/
structure Due (text : List Char) (done : Nat) (e : Edit) : Prop extends Fits text e where
  behind : done ≤ e.span.start

def Sequential (text : List Char) : Nat → List Edit → Prop
  | _, [] => True
  | done, e :: edits => Due text done e ∧ Sequential text e.span.stop edits

/-- How far a text is dealt with after some edits. -/
def reached (done : Nat) (edits : List Edit) : Nat := edits.foldl (fun _ e => e.span.stop) done

/-- What is said against an edit that is not due. -/
def blame (text : List Char) (done : Nat) (e : Edit) : EditError :=
  if e.span.start < done then .overlapping done e.span.start
  else .outOfBounds e.span.start e.span.stop (width text)

/-- A single replacement: the range is taken out, and the new text is where it was. -/
def replaceIn? (e : Edit) (text : List Char) : Option (List Char) :=
  match split? e.span.start text, split? e.span.stop text with
  | some (before, _), some (_, after) =>
    if e.span.start ≤ e.span.stop then some (before ++ e.replacement.toList ++ after) else none
  | _, _ => none

/-- The parts of a text that edits leave alone from an offset on, with the new texts between them. -/
def interleaved (text : List Char) : Nat → List Edit → List Char
  | done, [] => (slice? text ⟨done, width text⟩).getD []
  | done, e :: edits =>
    (slice? text ⟨done, e.span.start⟩).getD [] ++ e.replacement.toList ++ interleaved text e.span.stop edits

variable {before rest result text : List Char} {done length : Nat} {e : Edit} {edits : List Edit}

theorem sequential_iff : Sequential text done edits ↔ (∀ e ∈ edits.head?, done ≤ e.span.start) ∧
    (edits.IsChain fun a b => a.span.stop ≤ b.span.start) ∧ ∀ e ∈ edits, e.Fits text := by
  induction edits generalizing done with
  | nil => simp [Sequential]
  | cons e edits ih =>
    rw [Sequential, ih, List.isChain_cons, List.forall_mem_cons]
    constructor
    · intro ⟨hdue, hnext, hchain, hfits⟩
      exact ⟨by simpa using hdue.behind, ⟨hnext, hchain⟩, hdue.toFits, hfits⟩
    · intro ⟨hbehind, ⟨hnext, hchain⟩, hfit, hfits⟩
      exact ⟨⟨hfit, by simpa using hbehind⟩, hnext, hchain, hfits⟩

theorem fits_iff : e.Fits text ↔ e.span.start ≤ e.span.stop ∧ e.span.stop ≤ width text ∧
    isBoundary text e.span.start = true ∧ isBoundary text e.span.stop = true := by
  constructor
  · intro ⟨hordered, hcuts⟩
    exact ⟨hordered, le_width_of_isBoundary hcuts.2, hcuts⟩
  · intro ⟨hordered, _, hcuts⟩
    exact ⟨hordered, hcuts⟩

theorem Due.parts (h : Due (before ++ rest) (width before) e) : ∃ gap removed remaining,
    rest = gap ++ (removed ++ remaining) ∧ width (before ++ gap) = e.span.start ∧
      width (before ++ gap ++ removed) = e.span.stop := by
  obtain ⟨⟨hordered, hstart, hstop⟩, hbehind⟩ := h
  obtain ⟨gap, after, -, rfl, hgap⟩ := exists_split? hstart hbehind
  rw [← List.append_assoc] at hstop
  obtain ⟨removed, remaining, -, rfl, hremoved⟩ := exists_split? hstop (hgap ▸ hordered)
  exact ⟨gap, removed, remaining, rfl, hgap, hremoved⟩

section

variable {gap removed remaining : List Char} (hstart : width (before ++ gap) = e.span.start)
  (hstop : width (before ++ gap ++ removed) = e.span.stop)

include hstart hstop

theorem due_of_parts : Due (before ++ (gap ++ (removed ++ remaining))) (width before) e := by
  refine ⟨⟨?_, ?_, ?_⟩, ?_⟩
  · rw [← hstart, ← hstop, width_append _ removed]
    omega
  · rw [← hstart, ← List.append_assoc]
    exact isBoundary_width _ _
  · rw [← hstop, ← List.append_assoc, ← List.append_assoc]
    exact isBoundary_width _ _
  · rw [← hstart, width_append]
    omega

theorem splice_parts : splice length (width before) (gap ++ (removed ++ remaining)) (e :: edits) =
    (splice length e.span.stop remaining edits).map (gap ++ e.replacement.toList ++ ·) := by
  have hgap : split? (e.span.start - width before) (gap ++ (removed ++ remaining)) =
      some (gap, removed ++ remaining) := by
    rw [← hstart, width_append, Nat.add_sub_cancel_left]
    exact split?_append gap _
  have hremoved : split? (e.span.stop - e.span.start) (removed ++ remaining) = some (removed, remaining) := by
    rw [← hstart, ← hstop, width_append _ removed, Nat.add_sub_cancel_left]
    exact split?_append removed _
  have hdue : Due (before ++ (gap ++ (removed ++ remaining))) (width before) e := due_of_parts hstart hstop
  rw [splice, if_neg (Nat.not_lt.mpr hdue.behind)]
  simp only [hgap, if_neg (Nat.not_lt.mpr hdue.ordered), hremoved]
  cases splice length e.span.stop remaining edits <;> rfl

end

theorem splice_of_not_due (h : ¬ Due (before ++ rest) (width before) e) :
    splice (width (before ++ rest)) (width before) rest (e :: edits) =
      .error (blame (before ++ rest) (width before) e) := by
  rw [splice, blame]
  split
  case isTrue => rfl
  case isFalse hbehind =>
    split
    case h_1 => rfl
    case h_2 gap after hgap =>
      split
      case isTrue => rfl
      case isFalse hordered =>
        split
        case h_1 => rfl
        case h_2 removed remaining hremoved =>
          -- both cuts succeed, so the edit is due
          obtain ⟨rfl, hwidth⟩ := eq_append_of_split? hgap
          obtain ⟨rfl, hwidth'⟩ := eq_append_of_split? hremoved
          refine absurd (due_of_parts ?_ ?_) h <;> simp only [width_append] <;> omega

inductive Pieces : List Char → List Char → List Edit → Prop where
  | nil {before rest : List Char} : Pieces before rest []
  | cons {before gap removed remaining : List Char} {e : Edit} {edits : List Edit}
      (hstart : width (before ++ gap) = e.span.start) (hstop : width (before ++ gap ++ removed) = e.span.stop)
      (more : Pieces (before ++ gap ++ removed) remaining edits) :
      Pieces before (gap ++ (removed ++ remaining)) (e :: edits)

theorem Sequential.pieces (h : Sequential (before ++ rest) (width before) edits) : Pieces before rest edits := by
  induction edits generalizing before rest with
  | nil => exact .nil
  | cons e edits ih =>
    obtain ⟨hdue, hmore⟩ := h
    obtain ⟨gap, removed, remaining, rfl, hstart, hstop⟩ := hdue.parts
    apply Pieces.cons hstart hstop
    apply ih
    rw [hstop]
    simpa only [List.append_assoc] using hmore

theorem slice?_behind (before gap rest : List Char) {stop : Nat} (hstop : width (before ++ gap) = stop) :
    slice? (before ++ (gap ++ rest)) ⟨width before, stop⟩ = some gap := by
  rw [width_append] at hstop
  have hle : width before ≤ stop := by omega
  have hgap : stop - width before = width gap := by omega
  simp only [slice?, hle, if_true, split?_append, hgap, Option.map_some]

theorem interleaved_nil (before rest : List Char) : interleaved (before ++ rest) (width before) [] = rest := by
  have hrest := slice?_behind before rest [] rfl
  rw [List.append_nil] at hrest
  rw [interleaved, hrest, Option.getD_some]

theorem interleaved_cons {gap removed remaining : List Char} (hstart : width (before ++ gap) = e.span.start)
    (hstop : width (before ++ gap ++ removed) = e.span.stop) :
    interleaved (before ++ (gap ++ (removed ++ remaining))) (width before) (e :: edits) =
      gap ++ e.replacement.toList ++
        interleaved (before ++ gap ++ removed ++ remaining) (width (before ++ gap ++ removed)) edits := by
  rw [interleaved, slice?_behind before gap _ hstart, Option.getD_some, hstop]
  simp only [List.append_assoc]

theorem splice_of_pieces (h : Pieces before rest edits) :
    splice length (width before) rest edits = .ok (interleaved (before ++ rest) (width before) edits) := by
  induction h with
  | nil => rw [splice, interleaved_nil]
  | cons hstart hstop _ ih =>
    rw [splice_parts hstart hstop, interleaved_cons hstart hstop, ← hstop, ih]
    rfl

theorem exists_first_not_due (h : ¬ Sequential text done edits) : ∃ front e back, edits = front ++ e :: back ∧
    Sequential text done front ∧ ¬ Due text (reached done front) e := by
  induction edits generalizing done with
  | nil => exact absurd trivial h
  | cons e edits ih =>
    by_cases hdue : Due text done e
    · obtain ⟨front, d, back, rfl, hfront, hd⟩ := ih fun hmore => h ⟨hdue, hmore⟩
      exact ⟨e :: front, d, back, rfl, ⟨hdue, hfront⟩, hd⟩
    · exact ⟨[], e, edits, rfl, trivial, hdue⟩

theorem splice_of_first_not_due {front back : List Edit} (h : Pieces before rest front)
    (he : ¬ Due (before ++ rest) (reached (width before) front) e) :
    splice (width (before ++ rest)) (width before) rest (front ++ e :: back) =
      .error (blame (before ++ rest) (reached (width before) front) e) := by
  induction h with
  | nil => exact splice_of_not_due he
  | @cons before gap removed remaining d front hstart hstop _ ih =>
    have hassoc : before ++ (gap ++ (removed ++ remaining)) = before ++ gap ++ removed ++ remaining := by
      simp only [List.append_assoc]
    have hreached : reached (width before) (d :: front) = reached (width (before ++ gap ++ removed)) front := by
      rw [hstop]
      rfl
    rw [hassoc, hreached] at he ⊢
    rw [List.cons_append, splice_parts hstart hstop, ← hstop, ih he]
    rfl

theorem replaceIn?_parts (e : Edit) (before removed after : List Char) (hstart : width before = e.span.start)
    (hstop : width (before ++ removed) = e.span.stop) :
    replaceIn? e (before ++ removed ++ after) = some (before ++ e.replacement.toList ++ after) := by
  have hle : e.span.start ≤ e.span.stop := by
    rw [← hstart, ← hstop, width_append]
    omega
  have hcut : split? e.span.start (before ++ removed ++ after) = some (before, removed ++ after) := by
    rw [← hstart, List.append_assoc]
    exact split?_append before (removed ++ after)
  rw [replaceIn?, hcut, ← hstop, split?_append, hstop]
  exact if_pos hle

theorem foldrM_replaceIn? (h : Pieces before rest edits) : edits.foldrM replaceIn? (before ++ rest) =
    some (before ++ interleaved (before ++ rest) (width before) edits) := by
  induction h with
  | nil =>
    rw [interleaved_nil]
    rfl
  | @cons before gap removed remaining e edits hstart hstop _ ih =>
    have hassoc : before ++ (gap ++ (removed ++ remaining)) = before ++ gap ++ removed ++ remaining := by
      simp only [List.append_assoc]
    rw [List.foldrM_cons, interleaved_cons hstart hstop, hassoc, ih]
    refine (replaceIn?_parts e (before ++ gap) removed _ hstart hstop).trans ?_
    simp only [List.append_assoc]

theorem width_interleaved (h : Pieces before rest edits) :
    width (interleaved (before ++ rest) (width before) edits) + (edits.map (·.span.length)).sum =
      width rest + (edits.map fun e => width e.replacement.toList).sum := by
  induction h with
  | nil =>
    rw [interleaved_nil]
    rfl
  | @cons before gap removed remaining e edits hstart hstop _ ih =>
    have hlength : e.span.length = width removed := by
      rw [Span.length, ← hstart, ← hstop, width_append _ removed, Nat.add_sub_cancel_left]
    rw [interleaved_cons hstart hstop]
    simp only [List.map_cons, List.sum_cons, width_append _ remaining, width_append _ (interleaved _ _ _),
      width_append gap, hlength]
    omega

theorem Pieces.of_sequential (h : Sequential text 0 edits) : Pieces [] text edits :=
  Sequential.pieces h

theorem applyEdits_of_sequential (h : Sequential text 0 edits) :
    applyEdits text edits = .ok (interleaved text 0 edits) :=
  splice_of_pieces (Pieces.of_sequential h)

theorem applyEdits_of_first_not_due {front back : List Edit} (hfront : Sequential text 0 front)
    (he : ¬ Due text (reached 0 front) e) :
    applyEdits text (front ++ e :: back) = .error (blame text (reached 0 front) e) :=
  splice_of_first_not_due (Pieces.of_sequential hfront) he

theorem exists_applyEdits_iff : (∃ result, applyEdits text edits = .ok result) ↔ Sequential text 0 edits := by
  constructor
  · intro ⟨result, hresult⟩
    by_contra hnot
    obtain ⟨front, e, back, rfl, hfront, he⟩ := exists_first_not_due hnot
    rw [applyEdits_of_first_not_due hfront he] at hresult
    cases hresult
  · intro h
    exact ⟨_, applyEdits_of_sequential h⟩

theorem applyEdits_eq_error_iff {error : EditError} : applyEdits text edits = .error error ↔
    ∃ front e back, edits = front ++ e :: back ∧ Sequential text 0 front ∧ ¬ Due text (reached 0 front) e ∧
      error = blame text (reached 0 front) e := by
  constructor
  · intro herror
    have hnot : ¬ Sequential text 0 edits := by
      intro h
      rw [applyEdits_of_sequential h] at herror
      cases herror
    obtain ⟨front, e, back, rfl, hfront, he⟩ := exists_first_not_due hnot
    rw [applyEdits_of_first_not_due hfront he] at herror
    exact ⟨front, e, back, rfl, hfront, he, (Except.error.inj herror).symm⟩
  · intro ⟨front, e, back, hedits, hfront, he, herror⟩
    rw [hedits, herror]
    exact applyEdits_of_first_not_due hfront he

/-- A pass over a text succeeds just if each edit starts at or behind the end of the one before it and its range is in
order and can be cut out of the text. It then gives what the edits give one at a time, the last one first: all that is
between the edits, with the new texts in between. Otherwise it is the first edit out of turn that is complained of. -/
theorem one_pass_is_one_at_a_time (text : List Char) (edits : List Edit) :
    ((∃ result, applyEdits text edits = .ok result) ↔
      (edits.IsChain fun a b => a.span.stop ≤ b.span.start) ∧
        ∀ e ∈ edits, e.span.start ≤ e.span.stop ∧ e.span.stop ≤ width text ∧
          isBoundary text e.span.start = true ∧ isBoundary text e.span.stop = true) ∧
    (∀ result, applyEdits text edits = .ok result →
      edits.foldrM replaceIn? text = some result ∧ result = interleaved text 0 edits ∧
        width result + (edits.map (·.span.length)).sum =
          width text + (edits.map fun e => width e.replacement.toList).sum) ∧
    ∀ error, applyEdits text edits = .error error ↔ ∃ front e back, edits = front ++ e :: back ∧
      Sequential text 0 front ∧ ¬ Due text (reached 0 front) e ∧ error = blame text (reached 0 front) e := by
  refine ⟨?_, ?_, ?_⟩
  · rw [exists_applyEdits_iff, sequential_iff]
    simp only [fits_iff, Nat.zero_le, implies_true, true_and]
  · intro result hresult
    have hsequential := exists_applyEdits_iff.mp ⟨result, hresult⟩
    have hpieces := Pieces.of_sequential hsequential
    rw [applyEdits_of_sequential hsequential] at hresult
    obtain rfl := Except.ok.inj hresult
    exact ⟨foldrM_replaceIn? hpieces, rfl, width_interleaved hpieces⟩
  · intro error
    exact applyEdits_eq_error_iff

theorem one_pass_is_one_at_a_time_accents :
    let text := "aéb→".toList
    let edits := [insert 1 "<", replace ⟨1, 3⟩ "ü", insert 3 ">", replace ⟨4, 7⟩ ""]
    applyEdits text edits = .ok "a<ü>b".toList ∧ edits.foldrM replaceIn? text = some "a<ü>b".toList ∧
      "a<ü>b".toList = interleaved text 0 edits ∧ width "a<ü>b".toList + 5 = width text + 4 := by
  intro text edits
  have happly : applyEdits text edits = .ok "a<ü>b".toList := by decide
  obtain ⟨honce, hgaps, hwidth⟩ := (one_pass_is_one_at_a_time text edits).2.1 _ happly
  exact ⟨happly, honce, hgaps, hwidth⟩

end MockDialect.Edit
