import MockDialect.Creation.Layout
import MockDialect.Proofs.Edit.Apart
import MockDialect.Proofs.Java.Places
import MockDialect.Proofs.Text.Lines

namespace MockDialect.Creation

open Edit Java Text

/-- A range with more blanks at its ends, on no other line at its start. -/
structure Widens (text : List Char) (s r : Span) : Prop where
  cuts : Cuts text r
  start_le : r.start ≤ s.start
  le_stop : s.stop ≤ r.stop
  /-- What is not blank stays clear of the gain in front. -/
  front : ∀ offset c, CharAt text offset c → isBlank c = false → offset < s.start → offset < r.start
  back : ∀ offset c, CharAt text offset c → isBlank c = false → s.stop ≤ offset → r.stop ≤ offset
  line : ∀ n ∈ lineStarts text, n ≤ s.start → n ≤ r.start

variable {text : List Char} {s r : Span}

theorem Widens.refl (h : Cuts text s) : Widens text s s :=
  ⟨h, Nat.le_refl _, Nat.le_refl _, fun _ _ _ _ => id, fun _ _ _ _ => id, fun _ _ => id⟩

theorem Widens.ordered (h : Widens text s r) (hs : s.start ≤ s.stop) : r.start ≤ r.stop :=
  Nat.le_trans h.start_le (Nat.le_trans hs h.le_stop)

theorem wholeLines_widens (hs : Cuts text s) : Widens text s (wholeLines text s) := by
  unfold wholeLines
  dsimp only
  split
  case isFalse => exact .refl hs
  case isTrue hblank =>
    obtain ⟨hfront, hback⟩ := Bool.and_eq_true_iff.mp hblank
    have hstart := isBoundary_of_mem_lineStarts (lineStart_mem text s.start)
    obtain ⟨hle, hstop⟩ := nextLineStart_spec (le_width_of_isBoundary hs.2)
    refine ⟨⟨hstart, hstop⟩, lineStart_le text s.start, hle, ?_, ?_, fun n hn hle => le_lineStart hn hle⟩
    · intro offset c hchar hc hlt
      have := hchar.not_blank_range hc ⟨hstart, hs.1⟩ hfront
      exact this.resolve_right (Nat.not_le.mpr hlt)
    · intro offset c hchar hc hle
      have := hchar.not_blank_range hc ⟨hs.2, hstop⟩ hback
      exact this.resolve_left (Nat.not_lt.mpr hle)

theorem withBlankLineAfter_widens (h : Widens text s r) : Widens text s (withBlankLineAfter text r) := by
  unfold withBlankLineAfter
  dsimp only
  split
  case isFalse => exact h
  split
  case h_2 => exact h
  case h_1 next hnext =>
    split
    case isFalse => exact h
    case isTrue hblank =>
      have hlt : r.stop < next := by simpa using List.find?_some hnext
      have hcut := isBoundary_of_mem_breakEnds (List.mem_of_find?_eq_some hnext)
      refine ⟨⟨h.cuts.1, hcut⟩, h.start_le, Nat.le_trans h.le_stop (Nat.le_of_lt hlt), h.front, ?_, h.line⟩
      intro offset c hchar hc hle
      have := hchar.not_blank_range hc ⟨h.cuts.2, hcut⟩ hblank
      exact this.resolve_left (Nat.not_lt.mpr (h.back offset c hchar hc hle))

structure HeadOf (text : List Char) (body : Node) (offset : Nat) : Prop where
  cut : isBoundary text offset = true
  behind : body.span.start < offset
  inside : offset ≤ body.span.stop
  brace : CharAt text body.span.start '\x7b'
  first : offset = body.span.start + 1 ∨
    ∃ m, body.namedChildren.head? = some m ∧ offset = lineStart text m.span.start

theorem insertLines_head {body : Node} (hplaced : body.Placed text) (hregular : body.Regular text)
    (hbody : body.kind = .classBody ∨ body.kind = .block) (lines : List String) (gap close : String) :
    ∃ offset, (insertLines text body lines gap close).span = .point offset ∧ HeadOf text body offset := by
  obtain ⟨hchar, brace, rest, hchildren, -, hspan⟩ := hregular.braced hbody
  have hbrace := hplaced.laid.of_mem (hchildren ▸ .head rest : brace ∈ body.children)
  rw [hspan] at hbrace
  unfold insertLines
  split
  case h_2 =>
    exact ⟨_, rfl, hchar.isBoundary_next, Nat.lt_succ_self _, hbrace.2.1, hchar, .inl rfl⟩
  case h_1 first hfirst =>
    unfold firstMemberLine? at hfirst
    split at hfirst
    case h_2 => cases hfirst
    case h_1 m hm =>
      split at hfirst
      case isFalse => cases hfirst
      case isTrue hlt =>
        obtain rfl := Option.some.inj hfirst
        have hmem := hplaced.laid.of_mem (List.mem_filter.mp (List.mem_of_head? hm)).1
        have hordered := hmem.2.2.wellFormed.ordered
        have hle := lineStart_le text m.span.start
        exact ⟨_, rfl, isBoundary_of_mem_lineStarts (lineStart_mem text _), hlt, by omega, hchar, .inr ⟨m, hm, rfl⟩⟩

theorem HeadOf.le_start {body : Node} {offset : Nat} (h : HeadOf text body offset) (hw : Widens text s r)
    (hle : offset ≤ s.start) : offset ≤ r.start := by
  rcases h.first with rfl | ⟨m, -, rfl⟩
  · exact hw.front _ _ h.brace (by decide) hle
  · exact hw.line _ (lineStart_mem text _) hle

theorem HeadOf.stop_le {body : Node} {offset : Nat} (h : HeadOf text body offset) (hw : Widens text s r)
    (hle : s.stop ≤ body.span.start) : r.stop ≤ offset :=
  Nat.le_trans (hw.back _ _ h.brace (by decide) hle) (Nat.le_of_lt h.behind)

theorem HeadOf.le_of_within {body n : Node} {offset : Nat} (h : HeadOf text body offset)
    (hplaced : body.Placed text) (hregular : body.All (Node.Regular text))
    (hbody : body.kind = .classBody ∨ body.kind = .block) (hn : body.Within n) (hne : n.kind ≠ body.kind)
    (htoken : n.kind ≠ .token) : offset ≤ n.span.start := by
  obtain ⟨-, brace, rest, hchildren, hbrace, hspan⟩ := hregular.self.braced hbody
  rcases hn.cases_child with rfl | ⟨m, hm, hmn⟩
  · exact absurd rfl hne
  have hinside := (hmn.inside (hplaced.laid.of_mem hm).2.2).1
  -- a token has nothing in it, so the child around it is a member
  have hmember : m.kind ≠ .token := fun hkind =>
    htoken (hmn.eq_of_token (hregular.child hm).self hkind ▸ hkind)
  have hrow := hplaced.laid.pairwise
  rcases h.first with rfl | ⟨first, hfirst, rfl⟩
  · rw [hchildren] at hm hrow
    rcases List.mem_cons.mp hm with rfl | hm
    · exact absurd hbrace hmember
    · have := (List.pairwise_cons.mp hrow).1 m hm
      rw [hspan] at this
      exact Nat.le_trans this hinside
  · have hnamed := hrow.sublist (List.filter_sublist (p := fun c => c.kind != .token))
    obtain ⟨others, hothers⟩ := List.head?_eq_some_iff.mp hfirst
    have hm : m ∈ body.namedChildren := List.mem_filter.mpr ⟨hm, by simpa using hmember⟩
    rw [Node.namedChildren] at hothers hm
    rw [hothers] at hnamed hm
    have hfirstStart : first.span.start ≤ m.span.start := by
      rcases List.mem_cons.mp hm with rfl | hm
      · exact Nat.le_refl _
      · have hlater := (List.pairwise_cons.mp hnamed).1 m hm
        have hmem := (List.mem_filter.mp (List.mem_of_head? hfirst)).1
        exact Nat.le_trans (hplaced.laid.of_mem hmem).2.2.wellFormed.ordered hlater
    exact Nat.le_trans (lineStart_le text _) (Nat.le_trans hfirstStart hinside)

end MockDialect.Creation
