import MockDialect.Proofs.Java.Covering

namespace MockDialect.Source

open Java Text

/-- An expression statement of a tree that lies in a range. -/
structure StatementIn (tree : Node) (span : Span) (c : Cursor) : Prop where
  place : Cursor.In tree c
  kind : c.kind = .expressionStatement
  inside : span.contains c.span = true

/-- Statements of one list: all of it that lies in a range, in its order. -/
structure OneList (tree : Node) (span : Span) (statements : List Cursor) : Prop where
  found : ∀ c ∈ statements, StatementIn tree span c
  siblings : ∀ c ∈ statements, ∀ d ∈ statements, c.parent? = d.parent?
  apart : statements.Pairwise fun a b => a.span.stop ≤ b.span.start
  complete : ∀ c ∈ statements, ∀ parent ∈ c.parent?, ∀ d ∈ parent.children,
    d.kind = .expressionStatement → span.contains d.span = true → d ∈ statements

variable {f : File} {tree : Node} {span : Span} {c first : Cursor}

theorem statementIn_iff : StatementIn tree span c ↔ Cursor.In tree c ∧ liesIn span c = true := by
  rw [liesIn, Bool.and_eq_true, beq_iff_eq]
  exact ⟨fun ⟨hin, hkind, hinside⟩ => ⟨hin, hkind, hinside⟩, fun ⟨hin, hkind, hinside⟩ => ⟨hin, hkind, hinside⟩⟩

/-- No expression statement below a node is empty. -/
def Filled (n : Node) : Prop := ∀ k, n.Within k → k.kind = .expressionStatement → k.span.start < k.span.stop

theorem Filled.child {n m : Node} (h : Filled n) (hm : m ∈ n.children) : Filled m :=
  fun k hk => h k ((Node.Within.child .self hm).trans hk)

theorem File.Solid.filled (h : f.Solid) : Filled f.tree := by
  intro k hk hkind
  obtain ⟨above, hin⟩ := Cursor.exists_in hk
  exact (h hin (by rw [Cursor.kind, hkind]; decide)).self.nonempty

theorem not_liesIn_of_apart {n : Node} (hn : n.WellFormed) (hfilled : Filled n)
    (hapart : n.span.stop ≤ span.start ∨ span.stop ≤ n.span.start) (hc : n.Within c.node) : ¬ liesIn span c = true := by
  intro h
  rw [liesIn, Bool.and_eq_true, beq_iff_eq, Span.contains_iff] at h
  obtain ⟨hkind, hstart, hstop⟩ := h
  have hnonempty := hfilled c.node hc hkind
  have hinside := (hn.within hc).2
  simp only [Cursor.span] at hstart hstop
  omega

mutual

theorem head?_outermostStatements : ∀ {n : Node} {above : List Node}, n.WellFormed → Filled n →
    (outermostStatements span n above).head? = (Cursor.preorder n above).find? (liesIn span)
  | .mk kind role s children, above, hn, hfilled => by
    rw [outermostStatements]
    split
    case isTrue hapart =>
      rw [Bool.or_eq_true, decide_eq_true_eq, decide_eq_true_eq] at hapart
      refine (List.find?_eq_none.mpr fun c hc => ?_).symm
      exact not_liesIn_of_apart hn hfilled hapart (Cursor.within_of_mem_preorder c hc)
    case isFalse =>
      rw [Cursor.preorder]
      split
      case isTrue hlies => rw [List.find?_cons_of_pos hlies, List.head?_cons]
      case isFalse hlies =>
        rw [List.find?_cons_of_neg hlies]
        exact head?_outermostStatementsAmong (fun m hm => (hn.child hm).1) (fun m hm => hfilled.child hm)

theorem head?_outermostStatementsAmong : ∀ {ns above : List Node}, (∀ n ∈ ns, n.WellFormed) → (∀ n ∈ ns, Filled n) →
    (outermostStatementsAmong span ns above).head? = (Cursor.preorderAll ns above).find? (liesIn span)
  | [], _, _, _ => rfl
  | n :: ns, above, hn, hfilled => by
    rw [outermostStatementsAmong, Cursor.preorderAll, List.head?_append, List.find?_append,
      head?_outermostStatements (hn n (.head ns)) (hfilled n (.head ns)),
      head?_outermostStatementsAmong (fun m hm => hn m (.tail n hm)) (fun m hm => hfilled m (.tail n hm))]

end

mutual

theorem mem_outermostStatements : ∀ {n : Node} {above : List Node}, Cursor.In tree ⟨n, above⟩ →
    ∀ c ∈ outermostStatements span n above, StatementIn tree span c
  | .mk kind role s children, above, hn, c, hc => by
    rw [outermostStatements] at hc
    split at hc
    case isTrue => cases hc
    case isFalse =>
      split at hc
      case isTrue hlies =>
        obtain rfl := List.mem_singleton.mp hc
        exact statementIn_iff.mpr ⟨hn, hlies⟩
      case isFalse => exact mem_outermostStatementsAmong (fun m hm => .down hn hm) c hc

theorem mem_outermostStatementsAmong : ∀ {ns above : List Node}, (∀ n ∈ ns, Cursor.In tree ⟨n, above⟩) →
    ∀ c ∈ outermostStatementsAmong span ns above, StatementIn tree span c
  | [], _, _, c, hc => by cases hc
  | n :: ns, above, hns, c, hc => by
    rw [outermostStatementsAmong] at hc
    rcases List.mem_append.mp hc with hc | hc
    · exact mem_outermostStatements (hns n (.head ns)) c hc
    · exact mem_outermostStatementsAmong (fun m hm => hns m (.tail n hm)) c hc

end

theorem filter_sublist_outermostStatementsAmong {ns above : List Node} (hn : ∀ n ∈ ns, n.WellFormed)
    (hfilled : ∀ n ∈ ns, Filled n) :
    ((ns.map fun n => (⟨n, above⟩ : Cursor)).filter (liesIn span)).Sublist
      (outermostStatementsAmong span ns above) := by
  induction ns with
  | nil => exact .slnil
  | cons n ns ih =>
    have hrest := ih (fun m hm => hn m (.tail n hm)) fun m hm => hfilled m (.tail n hm)
    rw [List.map_cons, List.filter_cons, outermostStatementsAmong]
    split
    case isFalse => exact hrest.trans (List.sublist_append_right _ _)
    case isTrue hlies =>
      have htouches : ¬ (n.span.stop ≤ span.start ∨ span.stop ≤ n.span.start) := fun hapart =>
        not_liesIn_of_apart (hn n (.head ns)) (hfilled n (.head ns)) hapart .self hlies
      obtain ⟨kind, role, s, children⟩ := n
      have hapart : ¬ (decide (s.stop ≤ span.start) || decide (span.stop ≤ s.start)) = true := by
        rw [Bool.or_eq_true, decide_eq_true_eq, decide_eq_true_eq]
        exact htouches
      rw [outermostStatements, if_neg hapart, if_pos hlies]
      exact hrest.cons_cons _

mutual

theorem siblings_sublist : ∀ {n : Node} {above : List Node}, n.WellFormed → Filled n →
    ∀ c ∈ outermostStatements span n above, c = ⟨n, above⟩ ∨ ∃ parent, c.parent? = some parent ∧
      (parent.children.filter (liesIn span)).Sublist (outermostStatements span n above)
  | .mk kind role s children, above, hn, hfilled, c, hc => by
    rw [outermostStatements] at hc ⊢
    split at hc
    case isTrue => cases hc
    case isFalse hapart =>
      rw [if_neg hapart]
      split at hc
      case isTrue => exact .inl (List.mem_singleton.mp hc)
      case isFalse hlies =>
        rw [if_neg hlies]
        have hchildren : ∀ m ∈ children, m.WellFormed := fun m hm => (hn.child hm).1
        have hfilled' : ∀ m ∈ children, Filled m := fun m hm => hfilled.child hm
        rcases siblings_sublist_among hchildren hfilled' c hc with ⟨m, -, rfl⟩ | hdeeper
        · refine .inr ⟨⟨.mk kind role s children, above⟩, rfl, ?_⟩
          exact filter_sublist_outermostStatementsAmong hchildren hfilled'
        · exact .inr hdeeper

theorem siblings_sublist_among : ∀ {ns above : List Node}, (∀ n ∈ ns, n.WellFormed) → (∀ n ∈ ns, Filled n) →
    ∀ c ∈ outermostStatementsAmong span ns above, (∃ n ∈ ns, c = ⟨n, above⟩) ∨ ∃ parent, c.parent? = some parent ∧
      (parent.children.filter (liesIn span)).Sublist (outermostStatementsAmong span ns above)
  | [], _, _, _, c, hc => by cases hc
  | n :: ns, above, hn, hfilled, c, hc => by
    rw [outermostStatementsAmong] at hc ⊢
    rcases List.mem_append.mp hc with hc | hc
    · rcases siblings_sublist (hn n (.head ns)) (hfilled n (.head ns)) c hc with rfl | ⟨parent, hparent, hsublist⟩
      · exact .inl ⟨n, .head ns, rfl⟩
      · exact .inr ⟨parent, hparent, hsublist.trans (List.sublist_append_left _ _)⟩
    · rcases siblings_sublist_among (fun m hm => hn m (.tail n hm)) (fun m hm => hfilled m (.tail n hm)) c hc with
        ⟨m, hm, rfl⟩ | ⟨parent, hparent, hsublist⟩
      · exact .inl ⟨m, .tail n hm, rfl⟩
      · exact .inr ⟨parent, hparent, hsublist.trans (List.sublist_append_right _ _)⟩

end

mutual

theorem outermostStatements_apart : ∀ {n : Node} (above : List Node), n.WellFormed →
    (∀ c ∈ outermostStatements span n above, n.span.start ≤ c.span.start ∧ c.span.stop ≤ n.span.stop) ∧
      (outermostStatements span n above).Pairwise fun a b => a.span.stop ≤ b.span.start
  | .mk kind role s children, above, hn => by
    rw [outermostStatements]
    split
    case isTrue => exact ⟨nofun, .nil⟩
    case isFalse =>
      split
      case isTrue => exact ⟨List.forall_mem_singleton.mpr ⟨Nat.le_refl _, Nat.le_refl _⟩, List.pairwise_singleton _ _⟩
      case isFalse =>
        obtain ⟨hinside, hapart⟩ := outermostStatementsAmong_apart (.mk kind role s children :: above)
          (fun m hm => (hn.child hm).1) hn.pairwise
        refine ⟨fun c hc => ?_, hapart⟩
        obtain ⟨m, hm, hstart, hstop⟩ := hinside c hc
        obtain ⟨-, hmstart, hmstop⟩ := hn.child hm
        exact ⟨Nat.le_trans hmstart hstart, Nat.le_trans hstop hmstop⟩

theorem outermostStatementsAmong_apart : ∀ {ns : List Node} (above : List Node), (∀ n ∈ ns, n.WellFormed) →
    ns.Pairwise (fun a b => a.span.stop ≤ b.span.start) →
    (∀ c ∈ outermostStatementsAmong span ns above,
      ∃ n ∈ ns, n.span.start ≤ c.span.start ∧ c.span.stop ≤ n.span.stop) ∧
      (outermostStatementsAmong span ns above).Pairwise fun a b => a.span.stop ≤ b.span.start
  | [], _, _, _ => ⟨nofun, .nil⟩
  | n :: ns, above, hn, hapart => by
    rw [outermostStatementsAmong]
    obtain ⟨hfirst, hrest⟩ := List.pairwise_cons.mp hapart
    obtain ⟨hinside, hrow⟩ := outermostStatements_apart above (hn n (.head ns))
    obtain ⟨hinsideRest, hrowRest⟩ := outermostStatementsAmong_apart above (fun m hm => hn m (.tail n hm)) hrest
    refine ⟨List.forall_mem_append.mpr ⟨fun c hc => ⟨n, .head ns, hinside c hc⟩, fun c hc => ?_⟩,
      List.pairwise_append.mpr ⟨hrow, hrowRest, fun a ha b hb => ?_⟩⟩
    · obtain ⟨m, hm, hspan⟩ := hinsideRest c hc
      exact ⟨m, .tail n hm, hspan⟩
    · obtain ⟨m, hm, hstart, -⟩ := hinsideRest b hb
      exact Nat.le_trans (hinside a ha).2 (Nat.le_trans (hfirst m hm) hstart)

end

theorem mem_statementsIn : c ∈ f.statementsIn span ↔ c ∈ outermostStatements span f.tree [] ∧
    ∀ first ∈ (outermostStatements span f.tree []).head?, c.parent? = first.parent? := by
  rw [File.statementsIn]
  split
  case h_1 hnone =>
    rw [List.head?_eq_none_iff] at hnone
    rw [hnone]
    exact ⟨nofun, fun h => h.1⟩
  case h_2 first hfirst =>
    rw [List.mem_filter, decide_eq_true_eq, hfirst]
    refine and_congr_right fun _ => ⟨fun h d hd => ?_, fun h => h first rfl⟩
    exact Option.some.inj hd ▸ h

theorem statementsIn_sublist (f : File) (span : Span) :
    (f.statementsIn span).Sublist (outermostStatements span f.tree []) := by
  rw [File.statementsIn]
  split
  case h_1 => exact List.nil_sublist _
  case h_2 => exact List.filter_sublist

theorem statementIn_of_mem (h : c ∈ f.statementsIn span) : StatementIn f.tree span c :=
  mem_outermostStatements .root c (mem_statementsIn.mp h).1

theorem statementsIn_siblings {d : Cursor} (hc : c ∈ f.statementsIn span) (hd : d ∈ f.statementsIn span) :
    c.parent? = d.parent? := by
  obtain ⟨hfound, hparent⟩ := mem_statementsIn.mp hc
  obtain ⟨first, hfirst⟩ := List.isSome_head?.mpr (List.ne_nil_of_mem hfound) |> Option.isSome_iff_exists.mp
  rw [hparent first hfirst, (mem_statementsIn.mp hd).2 first hfirst]

theorem statementsIn_pairwise (hf : f.tree.WellFormed) (span : Span) :
    (f.statementsIn span).Pairwise fun a b => a.span.stop ≤ b.span.start :=
  (outermostStatements_apart [] hf).2.sublist (statementsIn_sublist f span)

theorem statementsIn_complete (hf : f.tree.WellFormed) (hfilled : Filled f.tree) {parent d : Cursor}
    (hc : c ∈ f.statementsIn span) (hparent : c.parent? = some parent) (hd : d ∈ parent.children)
    (hlies : liesIn span d = true) : d ∈ f.statementsIn span := by
  obtain ⟨hfound, hfirst⟩ := mem_statementsIn.mp hc
  have hup : d.parent? = c.parent? := by
    obtain ⟨n, -, rfl⟩ := List.mem_map.mp hd
    exact hparent.symm
  refine mem_statementsIn.mpr ⟨?_, fun first hmem => hup.trans (hfirst first hmem)⟩
  rcases siblings_sublist hf hfilled c hfound with rfl | ⟨parent', hparent', hsublist⟩
  · cases hparent
  · obtain rfl := Option.some.inj (hparent.symm.trans hparent')
    exact hsublist.subset (List.mem_filter.mpr ⟨hd, hlies⟩)

theorem head?_statementsIn (hf : f.tree.WellFormed) (hfilled : Filled f.tree) (span : Span) :
    (f.statementsIn span).head? = f.cursors.find? (liesIn span) := by
  rw [File.cursors, Cursor.all, ← head?_outermostStatements hf hfilled, File.statementsIn]
  cases outermostStatements span f.tree [] with
  | nil => rfl
  | cons first rest =>
    rw [List.head?_cons]
    dsimp only
    rw [List.filter_cons_of_pos (by simp), List.head?_cons]

theorem statementsIn_eq_nil_iff (hf : f.tree.WellFormed) (hfilled : Filled f.tree) :
    f.statementsIn span = [] ↔ ∀ c, ¬ StatementIn f.tree span c := by
  rw [← List.head?_eq_none_iff, head?_statementsIn hf hfilled, List.find?_eq_none]
  simp only [statementIn_iff, not_and]
  exact ⟨fun h c hc => h c hc.mem_all, fun h c hc => h c (Cursor.in_of_mem_all hc)⟩

theorem statements_of_one_list (f : File) (hf : f.tree.WellFormed) (hfilled : Filled f.tree) (span : Span) :
    OneList f.tree span (f.statementsIn span) ∧
    (f.statementsIn span = [] ↔ ∀ c, ¬ StatementIn f.tree span c) := by
  refine ⟨⟨fun c => statementIn_of_mem, fun c hc d => statementsIn_siblings hc, statementsIn_pairwise hf span,
    fun c hc parent hparent d hd hkind hinside => ?_⟩, statementsIn_eq_nil_iff hf hfilled⟩
  refine statementsIn_complete hf hfilled hc hparent hd ?_
  rw [liesIn, hkind, hinside]
  rfl

/-- Part of the statement around the lambda is selected and so is all of the last one; the first statement of the
range is that of the lambda. -/
theorem statements_of_one_list_lambda :
    let f := File.read "class T\x7b\x7ba();b(()->\x7bc();\x7d);d();\x7d\x7d"
    f.tree.WellFormed ∧ Filled f.tree ∧ (outermostStatements ⟨14, 31⟩ f.tree []).map (·.span) = [⟨20, 24⟩, ⟨27, 31⟩] ∧
      (f.statementsIn ⟨14, 31⟩).map (·.span) = [⟨20, 24⟩] ∧ OneList f.tree ⟨14, 31⟩ (f.statementsIn ⟨14, 31⟩) ∧
      ∃ c, StatementIn f.tree ⟨14, 31⟩ c := by
  have hf := (File.read_sound "class T\x7b\x7ba();b(()->\x7bc();\x7d);d();\x7d\x7d").placed.wellFormed
  have hfilled := (File.read_solid "class T\x7b\x7ba();b(()->\x7bc();\x7d);d();\x7d\x7d").filled
  generalize hfile : File.read _ = f at hf hfilled ⊢
  dsimp only
  have hcomputed : (outermostStatements ⟨14, 31⟩ f.tree []).map (·.span) = [⟨20, 24⟩, ⟨27, 31⟩] ∧
      (f.statementsIn ⟨14, 31⟩).map (·.span) = [⟨20, 24⟩] := by
    subst hfile
    decide +kernel
  obtain ⟨hlist, hempty⟩ := statements_of_one_list f hf hfilled ⟨14, 31⟩
  refine ⟨hf, hfilled, hcomputed.1, hcomputed.2, hlist, Classical.byContradiction fun hnone => ?_⟩
  rw [hempty.mpr fun c hc => hnone ⟨c, hc⟩] at hcomputed
  cases hcomputed.2

end MockDialect.Source
