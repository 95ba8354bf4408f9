import MockDialect.Proofs.Creation.Fields
import MockDialect.Proofs.Text.Breaks

namespace MockDialect.Creation

open Conversion Edit Java Source Text

variable {text : List Char} {s r : Span}

/-- Some code is in front of a range on its first line or behind it on its last line. -/
def SharesLine (text : List Char) (s : Span) : Prop :=
  ∃ offset c, CharAt text offset c ∧ isBlank c = false ∧
    (offset < s.start ∧ (∀ m, CharAt text m '\n' → m < offset ∨ s.start ≤ m) ∨
      s.stop ≤ offset ∧ ∀ m, CharAt text m '\n' → m < s.stop ∨ offset ≤ m)

theorem lineStart_le_of_between {offset : Nat} (h : ∀ m, CharAt text m '\n' → m < offset ∨ s.start ≤ m) :
    lineStart text s.start ≤ offset := by
  rcases mem_lineStarts_iff.mp (lineStart_mem text s.start) with hzero | ⟨m, hm, hstart⟩
  · omega
  · have hle := lineStart_le text s.start
    rcases h m hm with h | h <;> omega

theorem lt_nextLineStart_of_between {offset : Nat} {c : Char} (hchar : CharAt text offset c)
    (h : ∀ m, CharAt text m '\n' → m < s.stop ∨ offset ≤ m) : offset < nextLineStart text s.stop := by
  rcases nextLineStart_cases text s.stop with ⟨⟨m, hm, hnext⟩, hlt⟩ | ⟨hnext, -⟩
  · rcases h m hm with h | h <;> omega
  · have hin := le_width_of_isBoundary hchar.isBoundary_next
    have hpos := Char.utf8Size_pos c
    omega

theorem alone_iff (hs : Cuts text s) : (blankIn text ⟨lineStart text s.start, s.start⟩ &&
    blankIn text ⟨s.stop, nextLineStart text s.stop⟩) = true ↔ ¬ SharesLine text s := by
  obtain ⟨hle, hcut⟩ := nextLineStart_spec (le_width_of_isBoundary hs.2)
  have hfront := allBlank_slice_iff (s := ⟨lineStart text s.start, s.start⟩)
    ⟨isBoundary_of_mem_lineStarts (lineStart_mem text s.start), hs.1⟩ (lineStart_le text s.start)
  have hback := allBlank_slice_iff (s := ⟨s.stop, nextLineStart text s.stop⟩) ⟨hs.2, hcut⟩ hle
  rw [Bool.and_eq_true, blankIn, blankIn, hfront, hback]
  constructor
  · rintro ⟨hfront, hback⟩ ⟨offset, c, hchar, hc, ⟨hlt, hbetween⟩ | ⟨hge, hbetween⟩⟩
    · rw [hfront offset c hchar (lineStart_le_of_between hbetween) hlt] at hc
      cases hc
    · rw [hback offset c hchar hge (lt_nextLineStart_of_between hchar hbetween)] at hc
      cases hc
  · intro hnot
    refine ⟨fun offset c hchar hge hlt => ?_, fun offset c hchar hge hlt => ?_⟩
    · by_contra hc
      refine hnot ⟨offset, c, hchar, by simpa using hc, .inl ⟨hlt, fun m hm => ?_⟩⟩
      have hbreak : lineStart text s.start ≤ m → s.start ≤ m := le_of_break_of_lineStart_le hm
      dsimp only at hge
      omega
    · by_contra hc
      refine hnot ⟨offset, c, hchar, by simpa using hc, .inr ⟨hge, fun m hm => ?_⟩⟩
      have hbreak : s.stop ≤ m → nextLineStart text s.stop ≤ m + 1 := nextLineStart_le hm
      dsimp only at hlt
      omega

theorem wholeLines_of_shared (hs : Cuts text s) (h : SharesLine text s) : wholeLines text s = s :=
  if_neg fun halone => (alone_iff hs).mp halone h

theorem wholeLines_of_not_shared (hs : Cuts text s) (h : ¬ SharesLine text s) :
    wholeLines text s = ⟨lineStart text s.start, nextLineStart text s.stop⟩ :=
  if_pos ((alone_iff hs).mpr h)

/-- A blank line with the break that ends it. -/
structure BlankLine (text : List Char) (s : Span) : Prop where
  begins : AfterBreak text s.start
  ends : AfterBreak text s.stop
  lt : s.start < s.stop
  single : ∀ m, CharAt text m '\n' → s.start ≤ m → m < s.stop → m + 1 = s.stop
  blank : ∀ offset c, CharAt text offset c → s.start ≤ offset → offset < s.stop → isBlank c = true

theorem withBlankLineAfter_cases (hr : Cuts text r) :
    withBlankLineAfter text r = r ∧ (∀ stop, ¬ BlankLine text ⟨r.stop, stop⟩) ∨
      ∃ stop, BlankLine text ⟨r.stop, stop⟩ ∧ withBlankLineAfter text r = ⟨r.start, stop⟩ := by
  unfold withBlankLineAfter
  dsimp only
  split
  case isFalse hends =>
    refine .inl ⟨rfl, fun stop hline => hends ?_⟩
    exact List.contains_iff_mem.mpr (mem_breakEnds_zero_iff.mpr hline.begins)
  case isTrue hends =>
    have hbegins := mem_breakEnds_zero_iff.mp (List.contains_iff_mem.mp hends)
    split
    case h_2 hnone =>
      refine .inl ⟨rfl, fun stop hline => ?_⟩
      have hnot := List.find?_eq_none.mp hnone stop (mem_breakEnds_zero_iff.mpr hline.ends)
      exact hnot (by simpa using hline.lt)
    case h_1 next hnext =>
      have hlt : r.stop < next := by simpa using List.find?_some hnext
      have hmem := List.mem_of_find?_eq_some hnext
      have hfirst : ∀ m, CharAt text m '\n' → r.stop ≤ m → next ≤ m + 1 := fun m hm hle =>
        find?_past_le (breakEnds_ascending 0 text) hnext (mem_breakEnds_zero_iff.mpr ⟨m, hm, rfl⟩)
          (Nat.lt_succ_of_le hle)
      have hblank := allBlank_slice_iff (s := ⟨r.stop, next⟩) ⟨hr.2, isBoundary_of_mem_breakEnds hmem⟩
        (Nat.le_of_lt hlt)
      split
      case isTrue htrue =>
        refine .inr ⟨next, ⟨hbegins, mem_breakEnds_zero_iff.mp hmem, hlt, fun m hm hle hm' => ?_, hblank.mp htrue⟩, rfl⟩
        exact Nat.le_antisymm hm' (hfirst m hm hle)
      case isFalse hfalse =>
        refine .inl ⟨rfl, fun stop hline => hfalse (hblank.mpr fun offset c hchar hge hlt' => ?_)⟩
        -- the line that is blank ends at the first break
        obtain ⟨m, hm, hstop⟩ := hline.ends
        have hle := hfirst m hm (by have := hline.lt; dsimp only at this hstop; omega)
        exact hline.blank offset c hchar hge (by dsimp only at hlt' hstop ⊢; omega)

/-- A range with all that goes with it: its lines, if it has them for itself, and nothing otherwise. -/
structure Clears (text : List Char) (s r : Span) : Prop where
  cuts : Cuts text r
  start_le : r.start ≤ s.start
  le_stop : s.stop ≤ r.stop
  stop_le : r.stop ≤ width text
  blank : ∀ offset c, CharAt text offset c → r.start ≤ offset → offset < r.stop →
    isBlank c = true ∨ s.start ≤ offset ∧ offset < s.stop
  shared : SharesLine text s → r = s
  lines : r ≠ s ∨ ¬ SharesLine text s →
    (r.start = 0 ∨ AfterBreak text r.start) ∧ (r.stop = width text ∨ AfterBreak text r.stop)

/-- No line but those that a range has a part on. -/
structure OwnLines (text : List Char) (s r : Span) : Prop where
  front : ∀ m, CharAt text m '\n' → r.start ≤ m → s.start ≤ m
  back : ∀ m, CharAt text m '\n' → s.stop ≤ m → m < r.stop → m + 1 = r.stop

theorem Widens.blank (h : Widens text s r) {offset : Nat} {c : Char} (hchar : CharAt text offset c)
    (hge : r.start ≤ offset) (hlt : offset < r.stop) : isBlank c = true ∨ s.start ≤ offset ∧ offset < s.stop := by
  cases hc : isBlank c with
  | true => exact .inl rfl
  | false =>
    have hfront := h.front offset c hchar hc
    have hback := h.back offset c hchar hc
    omega

theorem Widens.clears (h : Widens text s r) (hshared : SharesLine text s → r = s)
    (hlines : ¬ SharesLine text s →
      (r.start = 0 ∨ AfterBreak text r.start) ∧ (r.stop = width text ∨ AfterBreak text r.stop)) : Clears text s r where
  cuts := h.cuts
  start_le := h.start_le
  le_stop := h.le_stop
  stop_le := le_width_of_isBoundary h.cuts.2
  blank := fun _ _ hchar => h.blank hchar
  shared := hshared
  lines := fun hor => hlines fun hs => hor.elim (fun hne => hne (hshared hs)) fun hnot => hnot hs

theorem lineStart_begins (text : List Char) (offset : Nat) :
    lineStart text offset = 0 ∨ AfterBreak text (lineStart text offset) :=
  mem_lineStarts_iff.mp (lineStart_mem text offset)

theorem nextLineStart_ends (text : List Char) (offset : Nat) :
    nextLineStart text offset = width text ∨ AfterBreak text (nextLineStart text offset) :=
  (nextLineStart_cases text offset).elim (fun h => .inr h.1) fun h => .inl h.1

theorem clears_wholeLines (hs : Cuts text s) : Clears text s (wholeLines text s) := by
  refine (wholeLines_widens hs).clears (wholeLines_of_shared hs) fun hnot => ?_
  rw [wholeLines_of_not_shared hs hnot]
  exact ⟨lineStart_begins text s.start, nextLineStart_ends text s.stop⟩

theorem ownLines_wholeLines (hs : Cuts text s) : OwnLines text s (wholeLines text s) := by
  by_cases hshared : SharesLine text s
  · rw [wholeLines_of_shared hs hshared]
    exact ⟨fun _ _ => id, fun m _ hge hlt => absurd hlt (Nat.not_lt.mpr hge)⟩
  · rw [wholeLines_of_not_shared hs hshared]
    refine ⟨fun m hm => le_of_break_of_lineStart_le hm, fun m hm hge hlt => ?_⟩
    exact Nat.le_antisymm hlt (nextLineStart_le hm hge)

theorem not_afterBreak_stop (hs : Cuts text s) (hlt : s.start < s.stop)
    (hlast : ∀ c ∈ (slice text s).toList.getLast?, isBlank c = false) : ¬ AfterBreak text s.stop := by
  rintro ⟨m, hm, hstop⟩
  have hmem := hm.mem_slice hs (by omega) (by omega)
  obtain ⟨c, hc⟩ := Option.ne_none_iff_exists'.mp fun hnone =>
    List.ne_nil_of_mem hmem (List.getLast?_eq_none_iff.mp hnone)
  obtain ⟨offset, hchar, hend⟩ := charAt_of_getLast?_slice hs (Nat.le_of_lt hlt) hc
  have hbreak : c = '\n' := hchar.eq_of_stop hm (hend.trans hstop)
  have hblank := hlast c hc
  rw [hbreak] at hblank
  cases hblank

theorem clears_withBlankLineAfter (hs : Cuts text s) (hstop : ¬ AfterBreak text s.stop) :
    Clears text s (withBlankLineAfter text (wholeLines text s)) := by
  have hwidens := wholeLines_widens hs
  have hcases := withBlankLineAfter_cases hwidens.cuts
  refine (withBlankLineAfter_widens hwidens).clears (fun hshared => ?_) fun hnot => ?_
  · rw [wholeLines_of_shared hs hshared] at hcases ⊢
    rcases hcases with ⟨hkept, -⟩ | ⟨stop, hline, -⟩
    · exact hkept
    · exact absurd hline.begins hstop
  · have hlines := (clears_wholeLines hs).lines (.inr hnot)
    rcases hcases with ⟨hkept, -⟩ | ⟨stop, hline, hgrown⟩
    · rwa [hkept]
    · rw [hgrown]
      exact ⟨hlines.1, .inr hline.ends⟩

/-- Whether the byte at an offset is outside of a range. -/
def isOutside (s : Span) (offset : Nat) : Bool := offset < s.start || s.stop ≤ offset

/-- A plan takes a range out of a file, and of all else blanks only. -/
structure TakesOnly (f : File) (plan : Plan) (s : Span) : Prop where
  whole : ∃ e ∈ plan.edits, e.replacement = "" ∧ e.span.start ≤ s.start ∧ s.stop ≤ e.span.stop
  blank : ∀ e ∈ plan.edits, ∀ offset c, CharAt f.text offset c → e.span.start ≤ offset → offset < e.span.stop →
    isBlank c = true ∨ s.start ≤ offset ∧ offset < s.stop
  left : ∃ made, plan.apply f.source = .ok made ∧
    ((kept (isOutside s) 0 f.text).filter fun c => !isBlank c).Sublist made.toList

variable {f : File} {plan : Plan}

theorem span_insertLines (body : Node) (lines : List String) (gap close : String) :
    ∃ offset, (insertLines text body lines gap close).span = .point offset := by
  unfold insertLines
  split <;> exact ⟨_, rfl⟩

theorem covered_of_edits {insertion : Edit} {imports : List String}
    (hedits : plan.edits.Perm ([replace r "", insertion] ++ (planImports f.imports imports).toList))
    (hinsertion : ∃ offset, insertion.span = .point offset) :
    ∀ e ∈ plan.edits, ∀ n, e.span.start ≤ n → n < e.span.stop → r.start ≤ n ∧ n < r.stop := by
  intro e he n hge hlt
  have hspan : e.span = r ∨ ∃ offset, e.span = .point offset := by
    rcases List.mem_append.mp (hedits.mem_iff.mp he) with he | he
    · rcases List.mem_cons.mp he with rfl | he
      · exact .inl rfl
      · exact .inr (List.mem_singleton.mp he ▸ hinsertion)
    · exact .inr ⟨_, span_of_planImports (Option.mem_toList.mp he)⟩
  rcases hspan with hspan | ⟨offset, hspan⟩
  · exact ⟨hspan ▸ hge, hspan ▸ hlt⟩
  · rw [hspan] at hge hlt
    exact absurd hlt (Nat.not_lt.mpr hge)

theorem Widens.filter_kept (hw : Widens text s r) : (kept (isOutside s) 0 text).filter (fun c => !isBlank c) =
    (kept (isOutside r) 0 text).filter fun c => !isBlank c := by
  refine filter_kept_congr fun n c hchar hc => ?_
  have hfront := hw.front n c hchar (by simpa using hc)
  have hback := hw.back n c hchar (by simpa using hc)
  have hstart := hw.start_le
  have hstop := hw.le_stop
  rw [Nat.zero_add, Bool.eq_iff_iff]
  simp only [isOutside, Bool.or_eq_true, decide_eq_true_eq]
  omega

theorem takesOnly_of_edits (hf : f.Sound) {insertion : Edit} {imports : List String}
    (hw : Widens f.text s r) (hinsertion : ∃ offset, insertion.span = .point offset)
    (hedits : plan.edits.Perm ([replace r "", insertion] ++ (planImports f.imports imports).toList))
    (happlies : ∃ made, plan.apply f.source = .ok made) : TakesOnly f plan s := by
  have hcovered := covered_of_edits hedits hinsertion
  refine ⟨⟨replace r "", hedits.mem_iff.mpr (.head _), rfl, hw.start_le, hw.le_stop⟩,
    fun e he n c hchar hge hlt => ?_, ?_⟩
  · obtain ⟨hge, hlt⟩ := hcovered e he n hge hlt
    exact hw.blank hchar hge hlt
  · obtain ⟨made, hmade⟩ := happlies
    refine ⟨made, hmade, ?_⟩
    have hkept : (kept (isOutside r) 0 f.text).Sublist made.toList := by
      rw [hf.text]
      refine kept_sublist_of_preview (preview_of_apply hmade) fun e he n hge hlt => ?_
      obtain ⟨hge, hlt⟩ := hcovered e he n hge hlt
      simp [isOutside, hge, hlt]
    rw [hw.filter_kept]
    exact List.filter_sublist.trans hkept

theorem takesOnly_planToField (hf : f.Sound) {selection : Selection} (h : planToField f selection = .ok plan) :
    ∃ c, creationCall? f selection = some c ∧ ∀ v, localVariable? f c.place = some v →
      (∃ n, f.tree.Within n ∧ n.kind = .localVariableDeclaration ∧ n.span = v.span) ∧ TakesOnly f plan v.span := by
  obtain ⟨c, body, shape, type, name, removal, hc, hbody, -, hfield, hedits⟩ := planToField_cases h
  obtain ⟨hplace, hcall, -⟩ := creationCall?_in hc
  refine ⟨c, hc, fun v hv => ?_⟩
  obtain ⟨n, hkind, hspan, hwithin⟩ := localVariable?_spec hplace hcall hbody hv
  have hn := (hplace.nearest hbody).1.within.trans hwithin
  rw [(fieldFor_eq_ok hfield).2.2.1 v hv] at hedits
  have hcuts := (hn.placed hf.placed).cuts.self
  rw [hspan] at hcuts
  exact ⟨⟨n, hn, hkind, hspan⟩, takesOnly_of_edits hf (wholeLines_widens hcuts)
    (span_insertLines body.node _ _ _) hedits ((applicable_planToField hf.regular selection).applies plan h)⟩

theorem takesOnly_planToCall (hf : f.Sound) {selection : Selection} {method : String}
    (h : planToCall f selection method = .ok plan) :
    ∃ field, mockField? f (selectedOffset f selection) = some field ∧ f.tree.Within field.place.node ∧
      field.place.node.kind = .fieldDeclaration ∧ TakesOnly f plan field.place.node.span := by
  obtain ⟨field, creation, imports, block, hfield, -, -, hedits⟩ := planToCall_cases h
  obtain ⟨hplace, hkind, -⟩ := mockField?_in hfield
  have hcuts := (hplace.placed hf.placed).cuts.self
  refine ⟨field, hfield, hplace.within, hkind, ?_⟩
  exact takesOnly_of_edits hf (withBlankLineAfter_widens (wholeLines_widens hcuts))
    (span_insertLines block _ _ _) hedits ((applicable_planToCall hf.regular selection method).applies plan h)

/-- What goes with a declaration: its lines and the blank line behind them, and never code that is not its own. -/
theorem removal_takes_only_declaration (source : String) :
    (∀ s, Cuts source.toList s → s.start < s.stop →
      (∀ c ∈ (slice source.toList s).toList.getLast?, isBlank c = false) →
      let text := source.toList
      let lines := wholeLines text s
      Clears text s lines ∧ OwnLines text s lines ∧ Clears text s (withBlankLineAfter text lines) ∧
        (withBlankLineAfter text lines = lines ∧ (∀ stop, ¬ BlankLine text ⟨lines.stop, stop⟩) ∨
          ∃ stop, BlankLine text ⟨lines.stop, stop⟩ ∧ withBlankLineAfter text lines = ⟨lines.start, stop⟩)) ∧
    let f := File.read source
    (∀ selection plan, planToField f selection = .ok plan →
      ∃ c, creationCall? f selection = some c ∧ ∀ v, localVariable? f c.place = some v →
        (∃ n, f.tree.Within n ∧ n.kind = .localVariableDeclaration ∧ n.span = v.span) ∧ TakesOnly f plan v.span) ∧
    ∀ selection method plan, planToCall f selection method = .ok plan →
      ∃ field, mockField? f (selectedOffset f selection) = some field ∧ f.tree.Within field.place.node ∧
        field.place.node.kind = .fieldDeclaration ∧ TakesOnly f plan field.place.node.span := by
  have hf : (File.read source).Sound := File.read_sound source
  refine ⟨fun s hs hlt hlast => ?_, fun _ _ => takesOnly_planToField hf, fun _ _ _ => takesOnly_planToCall hf⟩
  have hstop := not_afterBreak_stop hs hlt hlast
  have hlines := wholeLines_widens hs
  exact ⟨clears_wholeLines hs, ownLines_wholeLines hs, clears_withBlankLineAfter hs hstop,
    withBlankLineAfter_cases hlines.cuts⟩

theorem removal_takes_only_declaration_with_blank_line :
    let source :=
      "import org.mockito.*;\nclass A\x7b\n  @Mock T m;\n\n  void t()\x7b\n    S s=Mockito.mock(S.class);\n  \x7d\n\x7d\n"
    let f := File.read source
    (wholeLines source.toList ⟨33, 43⟩ = ⟨31, 44⟩ ∧ OwnLines source.toList ⟨33, 43⟩ ⟨31, 44⟩ ∧
      withBlankLineAfter source.toList ⟨31, 44⟩ = ⟨31, 45⟩ ∧ Clears source.toList ⟨33, 43⟩ ⟨31, 45⟩) ∧
    (∃ plan c v, planToField f (.caret 70) = .ok plan ∧ creationCall? f (.caret 70) = some c ∧
      localVariable? f c.place = some v ∧ v.span = ⟨61, 87⟩ ∧ TakesOnly f plan ⟨61, 87⟩) ∧
    ∃ plan, planToCall f (.caret 40) "t" = .ok plan ∧ TakesOnly f plan ⟨33, 43⟩ := by
  intro source
  have hremoval := removal_takes_only_declaration source
  generalize hfile : File.read source = f at hremoval ⊢
  dsimp only at hremoval ⊢
  have hcomputed : ((planToField f (.caret 70)).toOption.any fun plan => (creationCall? f (.caret 70)).any fun c =>
      (localVariable? f c.place).any fun v => v.span == ⟨61, 87⟩ &&
        (planToCall f (.caret 40) "t").toOption.any fun _ =>
          (mockField? f (selectedOffset f (.caret 40))).any fun field => field.place.node.span == ⟨33, 43⟩) = true := by
    subst hfile
    decide +kernel
  obtain ⟨hranges, hfields, hcalls⟩ := hremoval
  have hlines : wholeLines source.toList ⟨33, 43⟩ = ⟨31, 44⟩ := by decide +kernel
  have hgrown : withBlankLineAfter source.toList ⟨31, 44⟩ = ⟨31, 45⟩ := by decide +kernel
  have hlast : (slice source.toList ⟨33, 43⟩).toList.getLast? = some ';' := by decide +kernel
  have hrange := hranges ⟨33, 43⟩ ⟨by decide +kernel, by decide +kernel⟩ (by decide) fun c hc => by
    obtain rfl := Option.some.inj (hlast.symm.trans hc)
    decide
  rw [hlines, hgrown] at hrange
  obtain ⟨plan, hplan, hcomputed⟩ := (Option.any_eq_true _ _).mp hcomputed
  obtain ⟨c, hc, hcomputed⟩ := (Option.any_eq_true _ _).mp hcomputed
  obtain ⟨v, hv, hcomputed⟩ := (Option.any_eq_true _ _).mp hcomputed
  rw [Bool.and_eq_true, beq_iff_eq] at hcomputed
  obtain ⟨hspan, hcomputed⟩ := hcomputed
  obtain ⟨plan', hplan', hcomputed⟩ := (Option.any_eq_true _ _).mp hcomputed
  obtain ⟨field, hfield, hcomputed⟩ := (Option.any_eq_true _ _).mp hcomputed
  have hplan := eq_ok_of_toOption hplan
  have hplan' := eq_ok_of_toOption hplan'
  obtain ⟨c', hc', hlocal⟩ := hfields _ _ hplan
  obtain rfl := Option.some.inj (hc.symm.trans hc')
  obtain ⟨field', hfield', -, -, htaken⟩ := hcalls _ _ _ hplan'
  obtain rfl := Option.some.inj (hfield.symm.trans hfield')
  rw [beq_iff_eq.mp hcomputed] at htaken
  exact ⟨⟨hlines, hrange.2.1, hgrown, hrange.2.2.1⟩,
    ⟨plan, c, v, hplan, hc, hv, hspan, hspan ▸ (hlocal v hv).2⟩, plan', hplan', htaken⟩

end MockDialect.Creation
