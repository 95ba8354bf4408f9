import MockDialect.Conversion.Planner
import MockDialect.Proofs.Chain.Placed
import MockDialect.Proofs.Conversion.Results
import MockDialect.Proofs.Source.Statements

namespace MockDialect.Conversion

open Chain Java Recognition Source Text

/-- A site whose chain is in the tree of a file. -/
structure Site.Found (f : File) (site : Site) : Prop where
  chain : ∃ c, Cursor.In f.tree c ∧ c.isCall = true ∧ site.chain = chainOf f c
  filled : site.chain.calls ≠ []
  starts : site.statementStart ≤ site.chain.span.start
  cut : isBoundary f.text site.statementStart = true

/-- Sites in the order of the text. -/
structure Found (f : File) (sites : List Site) : Prop where
  found : ∀ site ∈ sites, site.Found f
  apart : sites.Pairwise fun a b => a.chain.span.stop ≤ b.chain.span.start

variable {f : File}

theorem found_singleton {site : Site} (h : site.Found f) : Found f [site] :=
  ⟨fun _ hs => List.mem_singleton.mp hs ▸ h, List.pairwise_singleton _ _⟩

theorem placeAt_in (f : File) (offset : Nat) : Cursor.In f.tree (f.placeAt offset) := Cursor.In.innermost .root

theorem mem_callsAround {c call : Cursor} (h : Cursor.In f.tree c) (hcall : call ∈ callsAround c) :
    Cursor.In f.tree call ∧ call.isCall = true := by
  obtain ⟨hmem, hisCall⟩ := List.mem_filter.mp hcall
  exact ⟨h.outward call hmem, hisCall⟩

theorem chain_cuts (hf : f.Regular) {c : Cursor} (h : Cursor.In f.tree c) (hfilled : (chainOf f c).calls ≠ []) :
    isBoundary f.text (chainOf f c).span.start = true := by
  obtain ⟨l, hin, -, -, hspan⟩ := exists_span_chainOf h hfilled
  rw [hspan]
  exact (hin.placed hf.placed).cuts.self.1

theorem siteOf_found (hf : f.Regular) {c : Cursor} (h : Cursor.In f.tree c) (hcall : c.isCall = true)
    (hfilled : (chainOf f c).calls ≠ []) : (siteOf f c).Found f := by
  obtain ⟨l, -, -, hlink, hspan⟩ := exists_span_chainOf h hfilled
  have houter := (outermostCall_in h hcall).1
  cases hstatement : (outermostCall c).statement? with
  | none =>
    refine ⟨⟨c, h, hcall, rfl⟩, hfilled, ?_, ?_⟩
    · simp [siteOf, hstatement]
    · simpa [siteOf, hstatement] using chain_cuts hf h hfilled
  | some statement =>
    obtain ⟨hin, -, hwithin⟩ := houter.nearest hstatement
    have hplaced := hin.placed hf.placed
    refine ⟨⟨c, h, hcall, rfl⟩, hfilled, ?_, ?_⟩
    · simp only [siteOf, hstatement, hspan]
      exact ((hwithin.trans hlink).inside hplaced).1
    · simp only [siteOf, hstatement]
      exact hplaced.cuts.self.1

theorem filled_of_classify? {chain : Chain} {dialect : Dialect} (h : classify? chain = some dialect) :
    chain.calls ≠ [] := by
  obtain ⟨calls⟩ := chain
  rintro rfl
  cases h

theorem filled_of_isMockedStaticStubbing {chain : Chain} (h : Stubbing.isMockedStaticStubbing chain = true) :
    chain.calls ≠ [] := by
  obtain ⟨calls⟩ := chain
  rintro rfl
  cases h

theorem selectAt_eq_ok {offset : Nat} {selected : Selected} (h : selectAt f offset = .ok selected) :
    ∃ call dialect, call ∈ callsAround (f.placeAt offset) ∧ classify? (chainOf f call) = some dialect ∧
      selected = ⟨dialect, [siteOf f call], false⟩ := by
  unfold selectAt at h
  split at h
  case h_2 => cases h
  case h_1 dialect site hfound =>
    obtain ⟨call, hcall, hread⟩ := List.exists_of_findSome?_eq_some hfound
    obtain ⟨dialect', hclass, hsite⟩ := Option.map_eq_some_iff.mp hread
    simp only [Prod.mk.injEq] at hsite
    obtain ⟨rfl, rfl⟩ := hsite
    exact ⟨call, dialect', hcall, hclass, (Except.ok.inj h).symm⟩

theorem statementsIn_spec (hf : f.Regular) (span : Span) :
    (∀ s ∈ f.statementsIn span, Cursor.In f.tree s ∧ s.kind = .expressionStatement) ∧
      (f.statementsIn span).Pairwise fun a b => a.span.stop ≤ b.span.start := by
  refine ⟨fun s hs => ?_, statementsIn_pairwise hf.placed.wellFormed span⟩
  have hstatement := statementIn_of_mem hs
  exact ⟨hstatement.place, hstatement.kind⟩

theorem outermostCall_of_statement {s : Cursor} {n : Node} (hkind : s.kind = .expressionStatement) :
    outermostCall ⟨n, s.node :: s.above⟩ = ⟨n, s.node :: s.above⟩ := by
  have hno : s.node.isCall = false := by
    rw [Node.isCall, show s.node.kind = .expressionStatement from hkind]
    rfl
  simp [outermostCall, outward, outwardFrom, hno]

theorem chainOfStatement?_spec (hf : f.Regular) {statement : Cursor} {chain : Chain}
    (h : Cursor.In f.tree statement) (hkind : statement.kind = .expressionStatement)
    (hchain : chainOfStatement? f statement = some chain) (hfilled : chain.calls ≠ []) :
    (∃ c, Cursor.In f.tree c ∧ c.isCall = true ∧ chain = chainOf f c) ∧
      statement.span.start ≤ chain.span.start ∧ chain.span.stop ≤ statement.span.stop := by
  unfold chainOfStatement? at hchain
  split at hchain
  case h_2 => cases hchain
  case h_1 expression hexpression =>
    split at hchain
    case isFalse => cases hchain
    case isTrue hcall =>
      obtain rfl := Option.some.inj hchain
      have hin := h.child (List.mem_of_find?_eq_some hexpression)
      obtain ⟨n, hn, rfl⟩ := List.mem_map.mp (List.mem_of_find?_eq_some hexpression)
      have hinside := (h.placed hf.placed).laid.of_mem hn
      refine ⟨⟨_, hin, hcall, rfl⟩, ?_⟩
      obtain ⟨l, -, -, hlink, hspan⟩ := exists_span_chainOf hin hfilled
      rw [outermostCall_of_statement hkind] at hlink
      have hlinked := hlink.inside hinside.2.2
      rw [hspan]
      exact ⟨Nat.le_trans hinside.1 hlinked.1, Nat.le_trans hlinked.2 hinside.2.1⟩

/-- A site read from a statement. -/
structure Site.Of (f : File) (statement : Cursor) (site : Site) : Prop where
  found : site.Found f
  stops : site.chain.span.stop ≤ statement.span.stop
  starts : statement.span.start ≤ site.chain.span.start

theorem site_of_statement (hf : f.Regular) {statement : Cursor} {chain : Chain} (h : Cursor.In f.tree statement)
    (hkind : statement.kind = .expressionStatement) (hchain : chainOfStatement? f statement = some chain)
    (hfilled : chain.calls ≠ []) : Site.Of f statement ⟨chain, statement.span.start⟩ := by
  obtain ⟨hfound, hstart, hstop⟩ := chainOfStatement?_spec hf h hkind hchain hfilled
  exact ⟨⟨hfound, hfilled, hstart, (h.placed hf.placed).cuts.self.1⟩, hstop, hstart⟩

theorem found_of_statements {γ : Type} {read : Cursor → γ} {done : Site → γ} {statements : List Cursor}
    {sites : List Site} (hmap : statements.map read = sites.map done)
    (hof : ∀ s ∈ statements, ∀ site, read s = done site → Site.Of f s site)
    (hapart : statements.Pairwise fun a b => a.span.stop ≤ b.span.start) : Found f sites where
  found := fun site hsite => by
    obtain ⟨s, hs, hread⟩ := exists_of_map_eq hmap site hsite
    exact (hof s hs site hread).found
  apart := by
    refine pairwise_of_map_eq hmap hapart fun a ha b hb x y hx hy hab => ?_
    exact Nat.le_trans (hof a ha x hx).stops (Nat.le_trans hab (hof b hb y hy).starts)

theorem readStatement_eq_ok {statement : Cursor} {dialect : Dialect} {site : Site}
    (h : readStatement f statement = .ok (dialect, site)) :
    ∃ chain, chainOfStatement? f statement = some chain ∧ classify? chain = some dialect ∧
      site = ⟨chain, statement.span.start⟩ := by
  unfold readStatement at h
  split at h
  case h_1 => cases h
  case h_2 chain hchain =>
    split at h
    case h_1 => cases h
    case h_2 found hfound =>
      simp only [Except.ok.injEq, Prod.mk.injEq] at h
      exact ⟨chain, hchain, h.1 ▸ hfound, h.2.symm⟩

theorem readStatementIn_eq_ok {statement : Cursor} {dialect : Dialect} {site : Site}
    (h : readStatementIn f dialect statement = .ok site) : readStatement f statement = .ok (dialect, site) := by
  unfold readStatementIn at h
  split at h
  case h_1 => cases h
  case h_2 other read hread =>
    split at h
    case isTrue hsame => rw [hread, hsame, Except.ok.inj h]
    case isFalse => cases h

theorem selectRange_eq_ok {span : Span} {selected : Selected} (h : selectRange f span = .ok selected) :
    (f.statementsIn span).map (readStatement f) =
      selected.sites.map fun site => .ok (selected.dialect, site) := by
  unfold selectRange at h
  split at h
  case h_1 => cases h
  case h_2 first rest hstatements =>
    obtain ⟨⟨dialect, site⟩, hfirst, h⟩ := bind_eq_ok.mp h
    obtain ⟨sites, hsites, h⟩ := bind_eq_ok.mp h
    obtain rfl := Except.ok.inj h
    rw [hstatements, List.map_cons, List.map_cons, hfirst,
      map_eq_map_of_imp (mapM_eq_ok.mp hsites) fun _ _ => readStatementIn_eq_ok]

theorem select_found (hf : f.Regular) {selection : Selection} {selected : Selected}
    (h : select f selection = .ok selected) : Found f selected.sites := by
  cases selection with
  | caret offset =>
    obtain ⟨call, dialect, hcall, hclass, rfl⟩ := selectAt_eq_ok h
    obtain ⟨hin, hisCall⟩ := mem_callsAround (placeAt_in f offset) hcall
    exact found_singleton (siteOf_found hf hin hisCall (filled_of_classify? hclass))
  | range span =>
    obtain ⟨hstatements, hapart⟩ := statementsIn_spec hf span
    refine found_of_statements (selectRange_eq_ok h) (fun s hs site hread => ?_) hapart
    obtain ⟨chain, hchain, hclass, rfl⟩ := readStatement_eq_ok hread
    exact site_of_statement hf (hstatements s hs).1 (hstatements s hs).2 hchain (filled_of_classify? hclass)

theorem select_classified {selection : Selection} {selected : Selected}
    (h : select f selection = .ok selected) :
    ∀ site ∈ selected.sites, classify? site.chain = some selected.dialect := by
  cases selection with
  | caret offset =>
    obtain ⟨call, dialect, -, hclass, rfl⟩ := selectAt_eq_ok h
    exact List.forall_mem_singleton.mpr hclass
  | range span =>
    intro site hsite
    obtain ⟨statement, -, hread⟩ := exists_of_map_eq (selectRange_eq_ok h) site hsite
    obtain ⟨chain, -, hclass, rfl⟩ := readStatement_eq_ok hread
    exact hclass

theorem select_ne_nil {selection : Selection} {selected : Selected} (h : select f selection = .ok selected) :
    selected.sites ≠ [] := by
  cases selection with
  | caret offset =>
    obtain ⟨call, dialect, -, -, rfl⟩ := selectAt_eq_ok h
    exact List.cons_ne_nil _ _
  | range span =>
    intro hnil
    have hmap := selectRange_eq_ok h
    rw [hnil, List.map_nil, List.map_eq_nil_iff] at hmap
    change selectRange f span = _ at h
    rw [selectRange, hmap] at h
    cases h

theorem selectMockedStatic?_found (hf : f.Regular) {selection : Selection} {sites : List Site}
    (h : selectMockedStatic? f selection = some sites) : Found f sites := by
  cases selection with
  | caret offset =>
    obtain ⟨chain, hfound, rfl⟩ := Option.map_eq_some_iff.mp h
    have hfilled := filled_of_isMockedStaticStubbing (List.find?_some hfound)
    obtain ⟨call, hcall, rfl⟩ := List.mem_map.mp (List.mem_of_find?_eq_some hfound)
    obtain ⟨hin, hisCall⟩ := mem_callsAround (placeAt_in f offset) hcall
    exact found_singleton ⟨⟨call, hin, hisCall, rfl⟩, hfilled, Nat.le_refl _, chain_cuts hf hin hfilled⟩
  | range span =>
    obtain ⟨hstatements, hapart⟩ := statementsIn_spec hf span
    have hmap : (f.statementsIn span).mapM (mockedStaticSite? f) = some sites := by
      simp only [selectMockedStatic?] at h
      split at h
      · cases h
      · exact h
    refine found_of_statements (mapM_eq_some.mp hmap) (fun s hs site hread => ?_) hapart
    unfold mockedStaticSite? at hread
    split at hread
    case h_2 => cases hread
    case h_1 chain hchain =>
      split at hread
      case isFalse => cases hread
      case isTrue hstubbing =>
        obtain rfl := Option.some.inj hread
        exact site_of_statement hf (hstatements s hs).1 (hstatements s hs).2 hchain
          (filled_of_isMockedStaticStubbing hstubbing)

theorem selectStubbing_found {p : Planner} (hf : p.file.Regular) {selection : Selection}
    {d : Stubbing.Dialect} {sites : List Site} (h : p.selectStubbing selection = .ok (d, sites)) :
    Found p.file sites := by
  unfold Planner.selectStubbing at h
  split at h
  case h_1 selected hselected =>
    split at h
    case h_1 =>
      simp only [Except.ok.injEq, Prod.mk.injEq] at h
      exact h.2 ▸ select_found hf hselected
    case h_2 => cases h
  case h_2 =>
    split at h
    case h_1 found hfound =>
      simp only [Except.ok.injEq, Prod.mk.injEq] at h
      exact h.2 ▸ selectMockedStatic?_found hf hfound
    case h_2 => cases h

end MockDialect.Conversion
