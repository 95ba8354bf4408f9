import MockDialect.Proofs.Conversion.Carets
import MockDialect.Proofs.Java.Covering
import MockDialect.Proofs.Recognition.Exclusive

namespace MockDialect.Conversion

open Api Chain Java Recognition Source Text

variable {f : File}

theorem receiver_ne_unknown {chain : Chain} {d : Dialect} {first : Call} (h : classify? chain = some d)
    (hfirst : chain.first? = some first) : first.receiver ≠ .unknown := by
  have hbegins := classify?_eq_some_iff.mp h
  cases d with
  | stubbing d =>
    obtain ⟨first', hfirst', hreceiver, -⟩ := Stubbing.Dialect.first_of_begins hbegins
    obtain rfl := Option.some.inj (hfirst.symm.trans hfirst')
    rw [hreceiver]
    exact nofun
  | verification d =>
    obtain ⟨first', hfirst', hentry⟩ := Verification.Dialect.isEntry_of_begins hbegins
    obtain rfl := Option.some.inj (hfirst.symm.trans hfirst')
    rw [(Verification.Dialect.opening_of_isEntry hentry).2]
    cases d <;> exact nofun

theorem isCall_of_leaf {n : Node} (hformed : n.Formed f.text) (hleaf : n.children = []) : n.isCall = false := by
  by_cases hcall : n.isCall = true
  · obtain ⟨m, hm, -⟩ := hformed.named hcall
    rw [hleaf] at hm
    cases hm
  · exact Bool.eq_false_iff.mpr hcall

section

variable {o k : Node} (hplaced : o.Placed f.text) (hformed : o.All (Node.Formed f.text)) (hsolid : o.All Node.Solid)

include hplaced hformed hsolid

theorem isCall_of_entryClass? {cls : EntryClass} (h : f.names.entryClass? o = some cls) (hk : o.Within k) :
    k.isCall = false := by
  by_cases hcall : k.isCall = true
  · obtain ⟨offset, hchar, hstart, hstop⟩ :=
      Node.charAt_of_isCall (hk.placed hplaced) (hk.all hformed) (hk.all hsolid) hcall
    have hinside := hk.inside hplaced
    have hmem : '(' ∈ (f.names.spell o).toList := hchar.mem_slice hplaced.cuts.self (by omega) (by omega)
    unfold Names.entryClass? at h
    split at h
    case isFalse => cases h
    case isTrue =>
      have hresolves := List.find?_some h
      simp only [Imports.resolves, Bool.or_eq_true, Bool.and_eq_true, beq_iff_eq] at hresolves
      rcases hresolves with hspelled | ⟨hspelled, -⟩
      · rw [hspelled] at hmem
        exact absurd hmem (by cases cls <;> decide)
      · rw [hspelled] at hmem
        exact absurd hmem (by cases cls <;> decide)
  · exact Bool.eq_false_iff.mpr hcall

theorem isCall_of_typeOf {type : ApiType} (h : f.names.typeOf o = some type) (ho : o.isCall = false) (hk : o.Within k)
    (hstart : k.span.start = o.span.start) : k.isCall = false := by
  -- below a first child that is a leaf there is nothing else
  have hleaf : ∀ {first : Node} {rest : List Node}, o.children = first :: rest → first.children = [] →
      k.isCall = false := by
    intro first rest hchildren hfirst
    rcases hk.of_start hplaced hsolid hchildren hstart with rfl | hwithin
    · exact ho
    · rw [hwithin.eq_of_leaf hfirst]
      exact isCall_of_leaf (hformed.child (by simp [hchildren])).self hfirst
  have hself := hformed.self
  obtain ⟨kind, role, span, children⟩ := o
  rw [Names.typeOf.eq_def] at h
  dsimp only at h
  split at h
  case h_1 => cases ho
  case h_2 =>
    rw [hk.eq_of_leaf (hself.bare rfl)]
    exact ho
  case h_3 =>
    unfold Names.ownFieldType? at h
    split at h
    case h_2 => cases h
    case h_1 object field hobject _ =>
      split at h
      case isFalse => cases h
      case isTrue hthis =>
        have hmem := List.mem_of_find?_eq_some hobject
        have hrole : object.role = some .object := by simpa using List.find?_some hobject
        obtain ⟨rest, hchildren⟩ := children_of_object hself.qualified hmem hrole
        exact hleaf hchildren ((hformed.child hmem).self.bare (by rw [beq_iff_eq.mp hthis]; rfl))
  case h_4 =>
    obtain ⟨-, first, rest, hchildren, htoken⟩ := hself.parenthesized rfl
    exact hleaf hchildren ((hformed.child (by simp [hchildren])).self.bare (by rw [htoken]; rfl))
  case h_5 => cases h

end

theorem isCall_of_receiver {n first k : Node} {rest : List Node} {a : Call} (hplaced : n.Placed f.text)
    (hformed : n.All (Node.Formed f.text)) (hsolid : n.All Node.Solid) (ha : readCall? f n = some a)
    (hqualifier : ∀ q ∈ a.qualifier, q.kind ≠ .call) (hknown : a.receiver ≠ .unknown)
    (hchildren : n.children = first :: rest) (hk : first.Within k) (hstart : k.span.start = n.span.start) :
    k.isCall = false := by
  have hmem : first ∈ n.children := by simp [hchildren]
  have hbegins := hsolid.self.begins first (by simp [hchildren])
  obtain ⟨hcall, name, -, hname, -, -, -, -, -, -, hq, hreceiver⟩ := readCall?_eq ha
  obtain ⟨first', rest', hchildren', hled⟩ := hformed.self.led hcall
  obtain ⟨rfl, rfl⟩ := List.cons.inj (hchildren.symm.trans hchildren')
  rcases hled with hobject | hleaf
  · have hnot : first.isCall = false := by
      by_cases hfirst : first.isCall = true
      · rw [child?_object hformed.self.qualified hmem hobject, Option.map_some, qualifierOf_call hfirst] at hq
        exact absurd rfl (hqualifier _ hq)
      · exact Bool.eq_false_iff.mpr hfirst
    have hplaced' := (hplaced.laid.of_mem hmem).2.2
    rw [hreceiver, receiver_eq f.names hname, hchildren, Names.receiverAmong, if_pos (by simp [hobject])] at hknown
    split at hknown
    case h_1 cls hclass =>
      exact isCall_of_entryClass? hplaced' (hformed.child hmem) (hsolid.child hmem) hclass hk
    case h_2 =>
      split at hknown
      case h_1 type htype =>
        exact isCall_of_typeOf hplaced' (hformed.child hmem) (hsolid.child hmem) htype hnot hk (by omega)
      case h_2 => exact absurd rfl hknown
  · rw [hk.eq_of_leaf hleaf]
    exact isCall_of_leaf (hformed.child hmem).self hleaf

section

variable (hf : f.Sound) (hsolid : f.Solid)

include hf hsolid

theorem callAt?_start {c : Cursor} {first : Node} {rest : List Node} (h : Cursor.In f.tree c) (hcall : c.isCall = true)
    (hchildren : c.node.children = first :: rest)
    (hbelow : ∀ k, first.Within k → k.span.start = c.span.start → k.isCall = false) :
    f.callAt? c.span.start = some c := by
  have hplaced := h.placed hf.placed
  have hc : c.node.All Node.Solid := hsolid.call h hcall
  have hcovers : Cursor.covers c.span.start c.span.start c.node = true :=
    Cursor.covers_iff.mpr ⟨Nat.le_refl _, hc.self.nonempty, Nat.le_of_lt hc.self.nonempty⟩
  have hplace : f.placeAt c.span.start = Cursor.innermost c.span.start c.span.start c.node c.above :=
    h.innermost_eq hf.placed hcovers
  have habove : c ∈ Cursor.outward (f.placeAt c.span.start).node (f.placeAt c.span.start).above := by
    rw [hplace]
    exact Cursor.mem_outward_innermost
  have hfound : ((f.placeAt c.span.start).nearest? (·.isCall)).isSome = true :=
    List.find?_isSome.mpr ⟨c, habove, hcall⟩
  obtain ⟨d, hd⟩ := Option.isSome_iff_exists.mp hfound
  obtain ⟨hdin, hdcall, hwithin⟩ := (placeAt_in f c.span.start).nearest hd
  have hmem := Cursor.mem_outward_of_nearest hd habove hcall
  -- the call found covers the start too, and so begins there
  have hstart : d.span.start = c.span.start := by
    have hcovered := Cursor.covers_iff.mp (hplace ▸ Cursor.covers_innermost hcovers :
      Cursor.covers c.span.start c.span.start (f.placeAt c.span.start).node = true)
    have hin := hwithin.inside (hdin.placed hf.placed)
    have hout := (hdin.outward_within c hmem).inside hplaced
    simp only [Cursor.span] at *
    omega
  rw [File.callAt?, hd]
  rcases Cursor.cases_of_mem_outward hdin hmem with heq | ⟨k, hk, -, hkd⟩
  · rw [heq]
  · have hkin := hplaced.laid.of_mem hk
    have hkd' := hkd.inside hkin.2.2
    simp only [Cursor.span] at hstart
    rcases (Node.Within.child .self hk).of_start hplaced hc hchildren (by omega) with rfl | hfirst
    · have hexceeds := exceeds_child hplaced.wellFormed (wholeCall_of_solid (h.all hf.formed).self hc hcall) hk
      omega
    · rw [Cursor.isCall, hbelow d.node (hfirst.trans hkd) hstart] at hdcall
      cases hdcall

theorem callAt?_rootCall {c : Cursor} {d : Dialect} (h : Cursor.In f.tree c) (hcall : c.isCall = true)
    (hclass : classify? (chainOf f c) = some d) : f.callAt? c.span.start = some (rootCall c) := by
  obtain ⟨hroot, hrootCall⟩ := rootCall_in h hcall
  have hformed := hroot.all hf.formed
  obtain ⟨a, ha⟩ := exists_readCall?_of_in hf hroot hrootCall
  have hfirst := first?_chainOf hcall ha
  have htied := chainOf_tied (chainable_of_sound hf hsolid) h hcall
  have hstart : (rootCall c).span.start = c.span.start := by
    obtain ⟨b, hb, hread⟩ := exists_mem_chainOf (chainable_of_sound hf hsolid) h hcall
    have hstarts := htied.starts a (List.mem_of_head? hfirst) b hb
    obtain ⟨-, -, -, -, -, -, has, -⟩ := readCall?_eq ha
    obtain ⟨-, -, -, -, -, -, hbs, -⟩ := readCall?_eq hread
    rw [has, hbs] at hstarts
    exact hstarts
  obtain ⟨first, rest, hchildren, -⟩ := hformed.self.led hrootCall
  rw [← hstart]
  refine callAt?_start hf hsolid hroot hrootCall hchildren fun k hk hkstart => ?_
  exact isCall_of_receiver (hroot.placed hf.placed) hformed (hsolid.call hroot hrootCall) ha
    (htied.first a hfirst) (receiver_ne_unknown hclass hfirst) hchildren hk hkstart

end

theorem eq_of_mem_outward_statement {c s : Cursor} (hf : f.Sound) (hc : Cursor.In f.tree c) (hs : Cursor.In f.tree s)
    (hckind : c.kind = .expressionStatement) (hskind : s.kind = .expressionStatement)
    (hmem : c ∈ Cursor.outward s.node s.above) (hstop : s.span.stop = c.span.stop) : c = s := by
  rcases Cursor.cases_of_mem_outward hs hmem with heq | ⟨k, hk, -, hwithin⟩
  · exact heq
  · have hplaced := hc.placed hf.placed
    obtain ⟨first, rest, last, hchildren, -, htoken, hlast⟩ := (hc.all hf.formed).self.stated hckind
    have hinside := hwithin.inside (hplaced.laid.of_mem hk).2.2
    have hrow := hplaced.laid.pairwise
    have hformed := (hc.all hf.formed).child hk
    rw [hchildren] at hk hrow
    rcases List.mem_append.mp hk with hfront | hend
    · have hbefore := (List.pairwise_append.mp hrow).2.2 k hfront last (.head [])
      simp only [Cursor.span] at hstop
      omega
    · obtain rfl := List.mem_singleton.mp hend
      rw [Cursor.kind, hwithin.eq_of_token hformed.self.regular htoken, htoken] at hskind
      cases hskind

section

variable (hf : f.Sound) (hsolid : f.Solid)

include hf hsolid

theorem eq_of_precedes_statement {c s : Cursor} (hc : Cursor.In f.tree c) (hs : Cursor.In f.tree s)
    (hckind : c.kind = .expressionStatement) (hskind : s.kind = .expressionStatement)
    (hcontains : s.span.contains c.span = true) (hprecedes : Cursor.Precedes c s) : c = s := by
  have hcontains := Span.contains_iff.mp hcontains
  have hnonempty : c.span.start < c.span.stop := hsolid.filled c.node hc.within hckind
  rcases hprecedes with ⟨hstart, hstop⟩ | hapart
  · rcases hc.nested_or_apart hf.placed.wellFormed hs with hmem | hmem | hapart
    · exact eq_of_mem_outward_statement hf hc hs hckind hskind hmem (by omega)
    · exact (eq_of_mem_outward_statement hf hs hc hskind hckind hmem (by omega)).symm
    · omega
  · omega

theorem find?_statement {s : Cursor} (hs : Cursor.In f.tree s) (hkind : s.kind = .expressionStatement) :
    f.cursors.find? (liesIn s.span) = some s := by
  have hself : liesIn s.span s = true := by simp [liesIn, hkind, Span.contains_refl]
  obtain ⟨first, hfirst⟩ := Option.isSome_iff_exists.mp (List.find?_isSome.mpr ⟨s, hs.mem_all, hself⟩)
  obtain ⟨hselected, before, after, hwalk, hnone⟩ := List.find?_eq_some_iff_append.mp hfirst
  simp only [liesIn, Bool.and_eq_true, beq_iff_eq] at hselected
  have hin := Cursor.in_of_mem_all (List.mem_of_find?_eq_some hfirst)
  have hordered : (before ++ first :: after).Pairwise Cursor.Precedes := hwalk ▸ Cursor.preorder_pairwise hf.placed
  have hmem : s ∈ before ++ first :: after := hwalk ▸ hs.mem_all
  rw [File.cursors, hfirst]
  rcases List.mem_append.mp hmem with hbefore | hbehind
  · have hnot := hnone s hbefore
    rw [hself] at hnot
    cases hnot
  · rcases List.mem_cons.mp hbehind with rfl | hafter
    · rfl
    · have hprecedes := List.rel_of_pairwise_cons (List.pairwise_append.mp hordered).2.1 hafter
      rw [eq_of_precedes_statement hf hsolid hin hs hselected.1 hkind hselected.2 hprecedes]

theorem statementsIn_span {s : Cursor} (hs : Cursor.In f.tree s) (hkind : s.kind = .expressionStatement) :
    f.statementsIn s.span = [s] := by
  have hhead := head?_statementsIn hf.placed.wellFormed hsolid.filled s.span
  rw [find?_statement hf hsolid hs hkind] at hhead
  obtain ⟨rest, hrow⟩ := List.head?_eq_some_iff.mp hhead
  have hapart := statementsIn_pairwise hf.placed.wellFormed s.span
  rw [hrow] at hapart ⊢
  -- a second statement in the range would be behind the first, and so empty
  refine congrArg _ (List.eq_nil_iff_forall_not_mem.mpr fun c hc => ?_)
  have hstatement : StatementIn f.tree s.span c := statementIn_of_mem (hrow ▸ .tail s hc)
  have hbehind : s.span.stop ≤ c.span.start := List.rel_of_pairwise_cons hapart hc
  have hinside := Span.contains_iff.mp hstatement.inside
  have hnonempty : c.span.start < c.span.stop := hsolid.filled c.node hstatement.place.within hstatement.kind
  omega

end

theorem exists_expression {s : Cursor} {chain : Chain} (hformed : s.node.Formed f.text) (hsolid : s.node.Solid)
    (hkind : s.kind = .expressionStatement) (h : chainOfStatement? f s = some chain) :
    ∃ n ∈ s.node.children, n.isCall = true ∧ n.span.start = s.span.start ∧
      chain = chainOf f ⟨n, s.node :: s.above⟩ := by
  obtain ⟨first, rest, last, hchildren, hfirst, -⟩ := hformed.stated hkind
  have hfind : s.children.find? (·.kind != .token) = some ⟨first, s.node :: s.above⟩ := by
    rw [Cursor.children, hchildren]
    exact List.find?_cons_of_pos (p := fun c : Cursor => c.kind != .token) (bne_iff_ne.mpr hfirst)
  rw [chainOfStatement?, hfind] at h
  dsimp only at h
  split at h
  case isFalse => cases h
  case isTrue hcall =>
    refine ⟨first, by simp [hchildren], hcall, ?_, (Option.some.inj h).symm⟩
    exact hsolid.begins first (by simp [hchildren])

theorem statement?_of_statement {s : Cursor} {n : Node} (hkind : s.kind = .expressionStatement)
    (hcall : n.isCall = true) : (⟨n, s.node :: s.above⟩ : Cursor).statement? = some s := by
  have hn : (⟨n, s.node :: s.above⟩ : Cursor).kind = .methodInvocation := beq_iff_eq.mp hcall
  obtain ⟨rest, hrest⟩ : ∃ rest, Cursor.outward s.node s.above = s :: rest := by
    cases habove : s.above with
    | nil => exact ⟨[], by rw [Cursor.outward, ← habove]⟩
    | cons m above => exact ⟨_, by rw [Cursor.outward, ← habove]⟩
  rw [Cursor.statement?, Cursor.nearest?, Cursor.outward, List.find?_cons_of_neg (by rw [hn]; decide), hrest,
    List.find?_cons_of_pos (by rw [hkind]; rfl)]

theorem siteOf_of_statement {s : Cursor} {n : Node} (hkind : s.kind = .expressionStatement) (hcall : n.isCall = true) :
    siteOf f ⟨n, s.node :: s.above⟩ = ⟨chainOf f ⟨n, s.node :: s.above⟩, s.span.start⟩ := by
  rw [siteOf, outermostCall_of_statement hkind, statement?_of_statement hkind hcall]

theorem selectAt_of_statement (hf : f.Sound) (hsolid : f.Solid) {s : Cursor} {chain : Chain} {dialect : Dialect}
    (hs : Cursor.In f.tree s) (hkind : s.kind = .expressionStatement)
    (hchain : chainOfStatement? f s = some chain) (hclass : classify? chain = some dialect) :
    selectAt f s.span.start = .ok ⟨dialect, [⟨chain, s.span.start⟩], false⟩ := by
  obtain ⟨n, hn, hcall, hstart, rfl⟩ := exists_expression (hs.all hf.formed).self
    (hsolid hs (by rw [hkind]; exact nofun)).self hkind hchain
  have hin : Cursor.In f.tree ⟨n, s.node :: s.above⟩ := .down hs hn
  have hat : f.callAt? s.span.start = some (rootCall ⟨n, s.node :: s.above⟩) := by
    rw [← hstart]
    exact callAt?_rootCall hf hsolid hin hcall hclass
  obtain ⟨rest, hrest⟩ := callsAround_of_isCall (c := ⟨n, s.node :: s.above⟩) hcall
  rw [selectAt, findSome?_of_callAt? hf.qualified hat, outermostCall_rootCall hin hcall,
    outermostCall_of_statement hkind, hrest, List.findSome?_cons, hclass, siteOf_of_statement hkind hcall]
  rfl

theorem plan_eq_of_select {p : Planner} {a b : Selection} {dialect : Dialect} {sites : List Site} {bulk bulk' : Bool}
    (ha : select p.file a = .ok ⟨dialect, sites, bulk⟩) (hb : select p.file b = .ok ⟨dialect, sites, bulk'⟩)
    (target : Conversion.Target) : p.plan a target = p.plan b target := by
  rw [Planner.plan, Planner.plan, ha, hb]
  rfl

theorem caret_agrees_with_range (f : File) (hf : f.Sound) (hsolid : f.Solid) {s : Cursor} {selected : Selected}
    (hs : Cursor.In f.tree s) (hkind : s.kind = .expressionStatement)
    (hrange : select f (.range s.span) = .ok selected) :
    (∃ site, selected.sites = [site] ∧
      select f (.caret s.span.start) = .ok ⟨selected.dialect, [site], false⟩) ∧
    ∀ policy base target,
      Planner.plan ⟨f, policy, base⟩ (.caret s.span.start) target =
        Planner.plan ⟨f, policy, base⟩ (.range s.span) target := by
  obtain ⟨dialect, sites, bulk⟩ := selected
  have hmap := selectRange_eq_ok hrange
  rw [statementsIn_span hf hsolid hs hkind] at hmap
  obtain ⟨site, rfl⟩ : ∃ site, sites = [site] := by
    rw [← List.length_eq_one_iff]
    simpa using (congrArg List.length hmap).symm
  obtain ⟨chain, hchain, hclass, rfl⟩ := readStatement_eq_ok (List.cons.inj hmap).1
  have hcaret : select f (.caret s.span.start) = .ok ⟨dialect, [⟨chain, s.span.start⟩], false⟩ :=
    selectAt_of_statement hf hsolid hs hkind hchain hclass
  refine ⟨⟨_, rfl, hcaret⟩, fun policy base target => ?_⟩
  exact plan_eq_of_select (p := ⟨f, policy, base⟩) hcaret hrange target

theorem caret_agrees_with_range_around_statement :
    let f := File.read
      "import org.mockito.*;class T\x7b\x7bx();Mockito.when(a.b()).then(i -> \x7bc();return 1;\x7d);\x7d\x7d"
    ∃ s site, Cursor.In f.tree s ∧ s.kind = .expressionStatement ∧ s.span = ⟨34, 81⟩ ∧
      select f (.range s.span) = .ok ⟨.stubbing .mockitoWhen, [site], true⟩ ∧
      select f (.caret 34) = .ok ⟨.stubbing .mockitoWhen, [site], false⟩ ∧
      ∀ policy base target, Planner.plan ⟨f, policy, base⟩ (.caret 34) target =
        Planner.plan ⟨f, policy, base⟩ (.range ⟨34, 81⟩) target := by
  intro f
  have hcomputed : ((f.cursors.filter (·.kind == .expressionStatement))[1]?).any (fun s => s.span == ⟨34, 81⟩ &&
      (select f (.range s.span)).toOption.any fun selected =>
        selected.dialect == .stubbing .mockitoWhen && selected.bulk) = true := by
    decide +kernel
  obtain ⟨s, hs, hcomputed⟩ := (Option.any_eq_true _ _).mp hcomputed
  obtain ⟨hmem, hkind⟩ := List.mem_filter.mp (List.mem_of_getElem? hs)
  rw [Bool.and_eq_true, beq_iff_eq] at hcomputed
  obtain ⟨hspan, hrange⟩ := hcomputed
  obtain ⟨selected, hselected, hrange⟩ := (Option.any_eq_true _ _).mp hrange
  rw [Bool.and_eq_true, beq_iff_eq] at hrange
  obtain ⟨dialect, sites, bulk⟩ := selected
  obtain ⟨rfl, rfl⟩ : dialect = .stubbing .mockitoWhen ∧ bulk = true := hrange
  have hselected := eq_ok_of_toOption hselected
  obtain ⟨⟨site, rfl, hcaret⟩, hplans⟩ := caret_agrees_with_range f (File.read_sound _) (File.read_solid _)
    (Cursor.in_of_mem_all hmem) (beq_iff_eq.mp hkind) hselected
  refine ⟨s, site, Cursor.in_of_mem_all hmem, beq_iff_eq.mp hkind, hspan, hselected, ?_, ?_⟩
  · rw [hspan] at hcaret
    exact hcaret
  · rw [hspan] at hplans
    exact hplans

end MockDialect.Conversion
