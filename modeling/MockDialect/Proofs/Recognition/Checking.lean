import Mathlib.Data.List.Pairwise
import MockDialect.Proofs.Chain.Partition
import MockDialect.Proofs.Java.Covering
import MockDialect.Proofs.Recognition.Exclusive
import MockDialect.Proofs.Text.Tiling
import MockDialect.Recognition.Convention

namespace MockDialect.Recognition

open Api Chain Java Source Text

variable {f : File} {convention : Convention} {c d : Cursor} {a b : Call}

/-- The calls of a file, each at its place. -/
structure CallAt (f : File) (c : Cursor) (a : Call) : Prop where
  place : Cursor.In f.tree c
  read : readCall? f c.node = some a

namespace CallAt

theorem isCall (h : CallAt f c a) : c.isCall = true := (readCall?_eq h.read).1

theorem name (h : CallAt f c a) :
    ∃ name ∈ c.node.children, a.nameSpan = name.span ∧ a.name = f.spell name := by
  obtain ⟨-, name, -, hname, -, hspelled, -, hspan, -⟩ := readCall?_eq h.read
  exact ⟨name, Node.mem_children_of_child? hname, hspan, hspelled⟩

theorem below (hf : f.Sound) (hc : CallAt f c a) (hd : CallAt f d b)
    (h : ∃ k ∈ c.node.children, ⟨k, c.node :: c.above⟩ ∈ Cursor.outward d.node d.above) :
    d.span.stop ≤ a.nameSpan.start ∨ a.nameSpan.stop ≤ d.span.start ∨
      a.nameSpan.start ≤ d.span.start ∧ d.span.stop ≤ a.nameSpan.stop := by
  obtain ⟨k, hk, hmem⟩ := h
  obtain ⟨name, hname, hspan, -⟩ := hc.name
  have hplaced := hc.place.placed hf.placed
  have hinside := (hd.place.outward_within _ hmem).inside (hplaced.laid.of_mem hk).2.2
  rw [hspan]
  simp only [Cursor.span]
  by_cases heq : k = name
  · subst heq
    exact .inr (.inr hinside)
  · have hapart := hplaced.apart hk hname heq
    omega

section

variable (hf : f.Sound) (hsolid : f.Solid)

include hf hsolid

theorem inside (h : CallAt f c a) :
    c.span.start ≤ a.nameSpan.start ∧ a.nameSpan.start < a.nameSpan.stop ∧ a.nameSpan.stop ≤ c.span.stop := by
  obtain ⟨name, hname, hspan, -⟩ := h.name
  have hlaid := (h.place.placed hf.placed).laid.of_mem hname
  have hnonempty := ((hsolid.call h.place h.isCall).child hname).self.nonempty
  rw [hspan]
  exact ⟨hlaid.1, hnonempty, hlaid.2.1⟩

theorem nameSpan_ne_of_below (hc : CallAt f c a) (hd : CallAt f d b)
    (h : ∃ k ∈ c.node.children, ⟨k, c.node :: c.above⟩ ∈ Cursor.outward d.node d.above) :
    a.nameSpan ≠ b.nameSpan := by
  intro hsame
  have hcases := hc.below hf hd h
  have hinside := hd.inside hf hsolid
  obtain ⟨name, hname, hspan, -⟩ := hd.name
  have hexceeds := exceeds_child (hd.place.placed hf.placed).wellFormed
    (wholeCall_of_solid (hd.place.all hf.formed).self (hsolid.call hd.place hd.isCall) hd.isCall) hname
  rw [hsame] at hcases
  rw [← hspan] at hexceeds
  simp only [Cursor.span] at hcases hinside
  omega

theorem eq_of_nameSpan (hc : CallAt f c a) (hd : CallAt f d b) (hsame : a.nameSpan = b.nameSpan) : c = d := by
  rcases hc.place.nested_or_apart hf.placed.wellFormed hd.place with hmem | hmem | hapart
  · rcases Cursor.cases_of_mem_outward hd.place hmem with heq | ⟨k, hk, hbelow, -⟩
    · exact heq
    · exact absurd hsame (hc.nameSpan_ne_of_below hf hsolid hd ⟨k, hk, hbelow⟩)
  · rcases Cursor.cases_of_mem_outward hc.place hmem with heq | ⟨k, hk, hbelow, -⟩
    · exact heq.symm
    · exact absurd hsame.symm (hd.nameSpan_ne_of_below hf hsolid hc ⟨k, hk, hbelow⟩)
  · have hinsidec := hc.inside hf hsolid
    have hinsided := hd.inside hf hsolid
    rw [hsame] at hinsidec
    omega

theorem not_in_name (hc : CallAt f c a) (hd : CallAt f d b) (hname : '(' ∉ a.name.toList) :
    ¬ (a.nameSpan.start ≤ d.span.start ∧ d.span.stop ≤ a.nameSpan.stop) := by
  rintro ⟨hstart, hstop⟩
  obtain ⟨name, hmem, hspan, hspelled⟩ := hc.name
  obtain ⟨offset, hchar, hfrom, hto⟩ := Node.charAt_of_isCall (hd.place.placed hf.placed)
    (hd.place.all hf.formed) (hsolid.call hd.place hd.isCall) hd.isCall
  have hcuts := ((hc.place.placed hf.placed).laid.of_mem hmem).2.2.cuts.self
  simp only [Cursor.span, hspan] at hstart hstop
  refine hname ?_
  rw [hspelled]
  exact hchar.mem_slice hcuts (by omega) (by omega)

end

end CallAt

theorem declaringClass_of_receiverAmong {names : Names} {method : String} {ns : List Node} {cls : EntryClass}
    (h : names.receiverAmong method ns = .entry cls) : declaringClass method = cls := by
  induction ns with
  | nil =>
    rw [Names.receiverAmong] at h
    cases hmember : names.imports.staticMember? method with
    | none =>
      rw [hmember] at h
      cases h
    | some found =>
      rw [hmember] at h
      obtain rfl := Receiver.entry.inj h
      unfold Imports.staticMember? at hmember
      dsimp only at hmember
      split at hmember
      case isTrue => exact Option.some.inj hmember
      case isFalse => cases hmember
  | cons n ns ih =>
    rw [Names.receiverAmong] at h
    by_cases hrole : (n.role == some .object) = true
    · rw [if_pos hrole] at h
      cases hclass : names.entryClass? n with
      | some found =>
        rw [hclass] at h
        dsimp only [Names.throughClass] at h
        split at h
        case isTrue => exact Receiver.entry.inj h
        case isFalse => cases h
      | none =>
        rw [hclass] at h
        dsimp only at h
        split at h <;> cases h
    · rw [if_neg hrole] at h
      exact ih h

theorem declaringClass_of_readCall? {n : Node} {cls : EntryClass} (h : readCall? f n = some a)
    (hreceiver : a.receiver = .entry cls) : declaringClass a.name = cls := by
  obtain ⟨-, name, -, hname, -, hspelled, -, -, -, -, -, hread⟩ := readCall?_eq h
  rw [hread, receiver_eq f.names hname] at hreceiver
  rw [hspelled]
  exact declaringClass_of_receiverAmong hreceiver

theorem not_mem_name_of_forbids {n : Node} (h : readCall? f n = some a) (hforbids : convention.forbids a = true) :
    '(' ∉ a.name.toList := by
  have hwords : ∀ word ∈ bddStatics ++ mockitoActions, '(' ∉ word.toList := by decide
  refine hwords a.name ?_
  cases convention with
  | mockito =>
    have hclass := declaringClass_of_readCall? h (beq_iff_eq.mp hforbids)
    unfold declaringClass at hclass
    split at hclass
    case isTrue hstatic => exact List.mem_append_left _ (List.contains_iff_mem.mp hstatic)
    case isFalse => cases hclass
  | bddMockito =>
    rw [Convention.forbids, Bool.or_eq_true, Bool.and_eq_true] at hforbids
    refine List.mem_append_right _ ?_
    rcases hforbids with ⟨-, haction⟩ | hentry
    · exact List.contains_iff_mem.mp haction
    · rw [(Verification.Dialect.opening_of_isEntry hentry).1]
      decide

/-- A call of a file that a convention rules out. -/
structure Forbidden (f : File) (convention : Convention) (c : Cursor) (a : Call) : Prop extends CallAt f c a where
  forbidden : convention.forbids a = true

def forbiddenCalls (f : File) (convention : Convention) : List (Cursor × Call) :=
  (f.cursors.filterMap fun c => (readCall? f c.node).map fun a => (c, a)).filter fun e => convention.forbids e.2

theorem check_eq (f : File) (convention : Convention) :
    check f convention = (forbiddenCalls f convention).map fun e => violationOf f convention e.2 := by
  have hcalls : f.cursors.filterMap (fun c => readCall? f c.node) =
      (f.cursors.filterMap fun c => (readCall? f c.node).map fun a => (c, a)).map Prod.snd := by
    rw [List.map_filterMap]
    simp only [Option.map_map, Function.comp_def, Option.map_id']
  rw [check, hcalls, List.filter_map, List.map_map]
  rfl

theorem mem_forbiddenCalls : (c, a) ∈ forbiddenCalls f convention ↔ Forbidden f convention c a := by
  unfold forbiddenCalls
  rw [List.mem_filter, List.mem_filterMap]
  constructor
  · rintro ⟨⟨d, hd, hread⟩, hforbids⟩
    obtain ⟨b, hb, heq⟩ := Option.map_eq_some_iff.mp hread
    obtain ⟨rfl, rfl⟩ := Prod.mk.inj heq
    exact ⟨⟨Cursor.in_of_mem_all hd, hb⟩, hforbids⟩
  · rintro ⟨⟨hplace, hread⟩, hforbids⟩
    exact ⟨⟨c, hplace.mem_all, by rw [hread, Option.map_some]⟩, hforbids⟩

theorem mem_check {v : Violation} :
    v ∈ check f convention ↔ ∃ c a, Forbidden f convention c a ∧ v = violationOf f convention a := by
  rw [check_eq, List.mem_map]
  constructor
  · rintro ⟨⟨c, a⟩, hmem, rfl⟩
    exact ⟨c, a, mem_forbiddenCalls.mp hmem, rfl⟩
  · rintro ⟨c, a, h, rfl⟩
    exact ⟨(c, a), mem_forbiddenCalls.mpr h, rfl⟩

theorem forbiddenCalls_passed (hf : f.Sound) :
    (forbiddenCalls f convention).Pairwise fun x y => Cursor.Passed x.1 y.1 := by
  refine List.Pairwise.filter _ (List.Pairwise.filterMap _ ?_ (Cursor.preorder_passed hf.placed))
  intro c d hpassed x hx y hy
  obtain ⟨a, -, rfl⟩ := Option.map_eq_some_iff.mp hx
  obtain ⟨b, -, rfl⟩ := Option.map_eq_some_iff.mp hy
  exact hpassed

/-- What a check reports: the calls that are ruled out, each of them once and at a name of its own. -/
structure Reports (f : File) (convention : Convention) (calls : List (Cursor × Call)) (violations : List Violation) :
    Prop where
  reported : violations = calls.map fun e => violationOf f convention e.2
  exact : ∀ c a, (c, a) ∈ calls ↔ Forbidden f convention c a
  once : calls.Pairwise fun x y => x.1 ≠ y.1 ∧ x.2.nameSpan ≠ y.2.nameSpan
  passed : calls.Pairwise fun x y => Cursor.Passed x.1 y.1

section

variable (hf : f.Sound) (hsolid : f.Solid)

include hf hsolid

theorem nameSpan_ne_of_passed (hc : CallAt f c a) (hd : CallAt f d b) (h : Cursor.Passed c d) :
    a.nameSpan ≠ b.nameSpan := by
  rcases h with hbelow | hleft
  · exact hc.nameSpan_ne_of_below hf hsolid hd hbelow
  · intro hsame
    have hinsidec := hc.inside hf hsolid
    have hinsided := hd.inside hf hsolid
    rw [hsame] at hinsidec
    omega

theorem check_reports : Reports f convention (forbiddenCalls f convention) (check f convention) where
  reported := check_eq f convention
  exact := fun _ _ => mem_forbiddenCalls
  once := by
    refine (forbiddenCalls_passed hf).imp_of_mem fun {x y} hx hy hpassed => ?_
    have hspans := nameSpan_ne_of_passed hf hsolid (mem_forbiddenCalls.mp hx).toCallAt
      (mem_forbiddenCalls.mp hy).toCallAt hpassed
    refine ⟨fun heq => hspans ?_, hspans⟩
    -- at one place one call is read
    have hread := (mem_forbiddenCalls.mp hx).read
    rw [heq, (mem_forbiddenCalls.mp hy).read] at hread
    rw [Option.some.inj hread]
  passed := forbiddenCalls_passed hf

/-- Names are reported in the order of the text if the walk comes past the calls in that order, and it does unless
the second call stands in front of the name of the first. -/
theorem start_lt_of_passed (hc : Forbidden f convention c a) (hd : CallAt f d b) (h : Cursor.Passed c d)
    (hfront : ¬ d.span.stop ≤ a.nameSpan.start) : a.nameSpan.start < b.nameSpan.start := by
  have hinsidec := hc.toCallAt.inside hf hsolid
  have hinsided := hd.inside hf hsolid
  rcases h with hbelow | hleft
  · have hnot := hc.toCallAt.not_in_name hf hsolid hd (not_mem_name_of_forbids hc.read hc.forbidden)
    have hcases := hc.toCallAt.below hf hd hbelow
    omega
  · omega

theorem check_sorted_iff :
    (check f convention).Pairwise (fun v w => v.span.start < w.span.start) ↔
      ∀ c a d b, Forbidden f convention c a → Forbidden f convention d b → c ∈ Cursor.outward d.node d.above →
        ¬ d.span.stop ≤ a.nameSpan.start := by
  rw [check_eq, List.pairwise_map]
  constructor
  · intro hsorted c a d b hc hd hmem hfront
    have hinsidec := hc.toCallAt.inside hf hsolid
    have hinsided := hd.toCallAt.inside hf hsolid
    have haround := (hd.place.outward_within c hmem).inside (hc.place.placed hf.placed)
    have hne : (c, a) ≠ (d, b) := fun heq => by
      obtain ⟨rfl, rfl⟩ := Prod.mk.inj heq
      omega
    -- one of the two comes first on the walk, and it is the one around the other
    let R (x y : Cursor × Call) : Prop := Cursor.Passed x.1 y.1 ∧ x.2.nameSpan.start < y.2.nameSpan.start
    have hwalk : (forbiddenCalls f convention).Pairwise fun x y => R x y ∨ R y x :=
      ((forbiddenCalls_passed hf).and hsorted).imp .inl
    have : Std.Symm fun x y => R x y ∨ R y x := ⟨fun _ _ h => h.symm⟩
    rcases hwalk.forall (mem_forbiddenCalls.mpr hc) (mem_forbiddenCalls.mpr hd) hne with ⟨-, hlt⟩ | ⟨hpassed, -⟩
    · dsimp only at hlt
      omega
    · rcases hpassed with ⟨k, hk, hbelow⟩ | hleft
      · have hwithin := (hc.place.outward_within _ hbelow).inside
          ((hd.place.placed hf.placed).laid.of_mem hk).2.2
        have hlaid := (hd.place.placed hf.placed).laid.of_mem hk
        simp only [Cursor.span] at hinsidec hinsided hfront
        omega
      · simp only [Cursor.span] at hinsidec hinsided hfront hleft
        omega
  · intro hfront
    refine (forbiddenCalls_passed hf).imp_of_mem fun {x y} hx hy hpassed => ?_
    have hx := mem_forbiddenCalls.mp hx
    have hy := mem_forbiddenCalls.mp hy
    by_cases haround : x.1 ∈ Cursor.outward y.1.node y.1.above
    · exact start_lt_of_passed hf hsolid hx hy.toCallAt hpassed (hfront _ _ _ _ hx hy haround)
    · have hinsidex := hx.toCallAt.inside hf hsolid
      have hinsidey := hy.toCallAt.inside hf hsolid
      rcases hpassed with ⟨k, -, hbelow⟩ | hleft
      · exact absurd (Cursor.mem_outward_parent hbelow) haround
      · change x.2.nameSpan.start < y.2.nameSpan.start
        omega

theorem isViolatedBy_iff_reported (h : Cursor.In f.tree c) :
    convention.isViolatedBy (chainOf f c) = true ↔
      ∃ v ∈ check f convention, ∃ a ∈ (chainOf f c).calls, v.span = a.nameSpan := by
  rw [Convention.isViolatedBy, List.any_eq_true]
  constructor
  · rintro ⟨a, ha, hforbids⟩
    obtain ⟨l, hl, hread⟩ := List.mem_filterMap.mp ha
    exact ⟨_, mem_check.mpr ⟨l, a, ⟨⟨(links_in h l hl).1, hread⟩, hforbids⟩, rfl⟩, a, ha, rfl⟩
  · rintro ⟨v, hv, a, ha, hspan⟩
    obtain ⟨d, b, hd, rfl⟩ := mem_check.mp hv
    obtain ⟨l, hl, hread⟩ := List.mem_filterMap.mp ha
    obtain rfl := hd.toCallAt.eq_of_nameSpan hf hsolid ⟨(links_in h l hl).1, hread⟩ hspan
    obtain rfl := Option.some.inj (hd.read.symm.trans hread)
    exact ⟨b, ha, hd.forbidden⟩

end

theorem lineSpan?_of_mem_check (hf : f.Sound) {v : Violation} (hv : v ∈ check f convention) :
    ∃ s, lineSpan? f.text v.line v.line = some s ∧ 1 ≤ v.column ∧ s.start + v.column - 1 = v.span.start := by
  obtain ⟨c, a, h, rfl⟩ := mem_check.mp hv
  obtain ⟨name, hname, hspan, -⟩ := h.toCallAt.name
  have hcuts := ((h.place.placed hf.placed).laid.of_mem hname).2.2.cuts.self
  have hin : a.nameSpan.start ≤ width f.text := hspan ▸ le_width_of_isBoundary hcuts.1
  obtain ⟨s, hs, hstart, -⟩ := lineSpan?_lineOf hin
  refine ⟨s, hs, Nat.le_add_left 1 _, ?_⟩
  have hle := lineStart_le f.text a.nameSpan.start
  simp only [violationOf, columnOf, hstart]
  omega

theorem check_reports_each_name_once (text : String) (convention : Convention) :
    let f := File.read text
    (∃ calls, Reports f convention calls (check f convention)) ∧
    (∀ v ∈ check f convention, ∃ s, lineSpan? f.text v.line v.line = some s ∧ 1 ≤ v.column ∧
      s.start + v.column - 1 = v.span.start) ∧
    (∀ n, Cursor.In f.tree n → n.isCall = true → (convention.isViolatedBy (chainOf f n) = true ↔
      ∃ v ∈ check f convention, ∃ a ∈ (chainOf f n).calls, v.span = a.nameSpan)) ∧
    ((check f convention).Pairwise (fun v w => v.span.start < w.span.start) ↔
      ∀ c a d b, Forbidden f convention c a → Forbidden f convention d b → c ∈ Cursor.outward d.node d.above →
        ¬ d.span.stop ≤ a.nameSpan.start) := by
  intro f
  have hf : f.Sound := File.read_sound text
  have hsolid : f.Solid := File.read_solid text
  exact ⟨⟨_, check_reports hf hsolid⟩, fun v hv => lineSpan?_of_mem_check hf hv,
    fun n hn _ => isViolatedBy_iff_reported hf hsolid hn, check_sorted_iff hf hsolid⟩

theorem check_reports_each_name_once_nested :
    let f := File.read "import org.mockito.*;\nclass T\x7b\x7bMockito.inOrder(Mockito.verify(a)).verify(b);\x7d\x7d"
    (∃ v ∈ check f .bddMockito, v.line = 2 ∧ v.column = 34 ∧ v.span = ⟨55, 61⟩ ∧
      ∃ s, lineSpan? f.text v.line v.line = some s ∧ s.start + v.column - 1 = v.span.start) ∧
    (∃ n, Cursor.In f.tree n ∧ n.span = ⟨31, 75⟩ ∧ ∃ v ∈ check f .bddMockito, ∃ a ∈ (chainOf f n).calls,
      v.span = a.nameSpan) ∧
    ∃ c a d b, Forbidden f .bddMockito c a ∧ Forbidden f .bddMockito d b ∧ c ∈ Cursor.outward d.node d.above ∧
      d.span.stop ≤ a.nameSpan.start := by
  obtain ⟨-, hlines, hchains, hsorted⟩ := check_reports_each_name_once
    "import org.mockito.*;\nclass T\x7b\x7bMockito.inOrder(Mockito.verify(a)).verify(b);\x7d\x7d" .bddMockito
  generalize hfile : File.read _ = f at hlines hchains hsorted ⊢
  dsimp only
  have hcomputed : (check f .bddMockito).map (fun v => (v.line, v.column, v.span)) =
        [(2, 45, ⟨66, 72⟩), (2, 34, ⟨55, 61⟩)] ∧
      f.cursors.any (fun n => n.isCall && n.span == ⟨31, 75⟩ &&
        Convention.bddMockito.isViolatedBy (chainOf f n)) = true := by
    subst hfile
    decide +kernel
  obtain ⟨hreported, hviolated⟩ := hcomputed
  refine ⟨?_, ?_, ?_⟩
  · have hmem : (2, 34, ⟨55, 61⟩) ∈ (check f .bddMockito).map fun v => (v.line, v.column, v.span) := by
      rw [hreported]
      exact .tail _ (.head _)
    obtain ⟨v, hv, hplace⟩ := List.mem_map.mp hmem
    obtain ⟨s, hs, -, hcolumn⟩ := hlines v hv
    simp only [Prod.mk.injEq] at hplace
    exact ⟨v, hv, hplace.1, hplace.2.1, hplace.2.2, s, hs, hcolumn⟩
  · obtain ⟨n, hn, hviolated⟩ := List.any_eq_true.mp hviolated
    simp only [Bool.and_eq_true, beq_iff_eq] at hviolated
    have hin := Cursor.in_of_mem_all hn
    exact ⟨n, hin, hviolated.1.2, (hchains n hin hviolated.1.1).mp hviolated.2⟩
  · by_contra hnone
    have hpairwise := hsorted.mpr fun c a d b hc hd hmem hfront => hnone ⟨c, a, d, b, hc, hd, hmem, hfront⟩
    have hstarts : ((check f .bddMockito).map fun v => (v.line, v.column, v.span)).Pairwise
        fun v w => v.2.2.start < w.2.2.start := List.pairwise_map.mpr hpairwise
    rw [hreported] at hstarts
    exact absurd hstarts (by decide)

/-- The name of the outer call is behind that of the inner one, and it is reported first. -/
theorem check_reports_outer_name_first :
    let f := File.read "import org.mockito.*;\nclass T\x7b\x7bMockito.inOrder(Mockito.verify(a)).verify(b);\x7d\x7d"
    (check f .bddMockito).map (·.span) = [⟨66, 72⟩, ⟨55, 61⟩] ∧
      ¬ (check f .bddMockito).Pairwise fun v w => v.span.start < w.span.start := by
  generalize hfile : File.read _ = f
  dsimp only
  have hspans : (check f .bddMockito).map (·.span) = [⟨66, 72⟩, ⟨55, 61⟩] := by
    subst hfile
    decide +kernel
  refine ⟨hspans, fun hpairwise => ?_⟩
  have hstarts : ((check f .bddMockito).map (·.span)).Pairwise fun s t => s.start < t.start :=
    List.pairwise_map.mpr hpairwise
  rw [hspans] at hstarts
  exact absurd hstarts (by decide)

end MockDialect.Recognition
