import MockDialect.Proofs.Chain.Linked

namespace MockDialect.Chain

open Java Source Text

/-- A call in a text. -/
structure Call.Placed (text : List Char) (c : Call) : Prop where
  ordered : c.span.start ≤ c.span.stop
  cuts : Cuts text c.span
  name : c.span.start ≤ c.nameSpan.start ∧ c.nameSpan.start ≤ c.span.stop
  nameCuts : isBoundary text c.nameSpan.start = true
  arguments : c.span.start ≤ c.argsSpan.start ∧ c.argsSpan.stop ≤ c.span.stop
  args : ∀ a ∈ c.args, a.span.start ≤ a.span.stop ∧ Cuts text a.span ∧
    c.argsSpan.start ≤ a.span.start ∧ a.span.stop ≤ c.argsSpan.stop
  apart : c.args.Pairwise fun a b => a.span.stop ≤ b.span.start

/-- Two calls of a chain, in their order. -/
structure Call.Before (text : List Char) (a b : Call) : Prop where
  left : a.Placed text
  right : b.Placed text
  starts : b.span.start ≤ a.span.start
  name : a.span.stop ≤ b.nameSpan.start
  args : a.span.stop ≤ b.argsSpan.start

variable {f : File} {tree : Node} {text : List Char}

theorem span_readArg (n : Node) : (readArg f n).span = n.span := by
  cases n
  rfl

theorem readArgs_eq (ns : List Node) :
    readArgs f ns = (ns.filter fun n => !(n.kind == .token || n.isComment)).map (readArg f) := by
  induction ns with
  | nil => rfl
  | cons n ns ih =>
    rw [readArgs, ih, List.filter_cons]
    cases n.kind == .token || n.isComment <;> rfl

theorem readArgsAmong_eq {ns : List Node} {arguments : Node}
    (h : ns.find? (·.role == some .arguments) = some arguments) :
    readArgsAmong f ns = readArgs f arguments.children := by
  induction ns with
  | nil => cases h
  | cons n ns ih =>
    obtain ⟨kind, role, span, children⟩ := n
    rw [readArgsAmong]
    cases hrole : role == some .arguments with
    | true =>
      rw [List.find?_cons_of_pos (by simpa [Node.role] using hrole)] at h
      rw [← Option.some.inj h]
      rfl
    | false =>
      rw [List.find?_cons_of_neg (by simpa [Node.role] using hrole)] at h
      exact ih h

theorem readCall?_placed {n : Node} {c : Call} (hn : n.Placed text) (h : readCall? f n = some c) :
    c.Placed text := by
  obtain ⟨-, name, arguments, hname, harguments, -, hspan, hnameSpan, hargsSpan, hargs, -, -⟩ := readCall?_eq h
  have hinName := hn.laid.of_mem (Node.mem_children_of_child? hname)
  have hinArgs := hn.laid.of_mem (Node.mem_children_of_child? harguments)
  have hnameOrdered := hinName.2.2.wellFormed.ordered
  rw [readArgsAmong_eq harguments, readArgs_eq] at hargs
  have hrow := hinArgs.2.2.laid
  refine ⟨hspan ▸ hn.wellFormed.ordered, hspan ▸ hn.cuts.self, ?_, ?_, ?_, ?_, ?_⟩
  · rw [hspan, hnameSpan]
    omega
  · rw [hnameSpan]
    exact hinName.2.2.cuts.self.1
  · rw [hspan, hargsSpan]
    exact ⟨hinArgs.1, hinArgs.2.1⟩
  · intro a ha
    rw [hargs] at ha
    obtain ⟨m, hm, rfl⟩ := List.mem_map.mp ha
    have hin := hrow.of_mem (List.mem_of_mem_filter hm)
    rw [span_readArg, hargsSpan]
    exact ⟨hin.2.2.wellFormed.ordered, hin.2.2.cuts.self, hin.1, hin.2.1⟩
  · rw [hargs]
    refine List.pairwise_map.mpr ((hrow.pairwise.sublist List.filter_sublist).imp fun hab => ?_)
    rwa [span_readArg, span_readArg]

theorem lt_of_readCall? {n : Node} {c : Call} (hn : n.Placed f.text) (h : readCall? f n = some c)
    (hname : c.name ≠ "") : c.span.start < c.span.stop := by
  obtain ⟨-, name, arguments, hchild, -, hspell, hspan, -⟩ := readCall?_eq h
  have hin := hn.laid.of_mem (Node.mem_children_of_child? hchild)
  have hlt : name.span.start < name.span.stop := lt_of_slice_ne_empty (hspell ▸ hname)
  rw [hspan]
  omega

theorem exists_link {c : Cursor} (h : Cursor.In f.tree c) {call : Call} (hcall : call ∈ (chainOf f c).calls) :
    ∃ l, Cursor.In f.tree l ∧ l.isCall = true ∧ readCall? f l.node = some call := by
  obtain ⟨l, hl, hread⟩ := List.mem_filterMap.mp hcall
  obtain ⟨hin, hisCall⟩ := links_in h l hl
  exact ⟨l, hin, hisCall, hread⟩

/-- A place in the qualifier of another. -/
def InQualifier (l m : Cursor) : Prop := ∃ object ∈ m.node.children, object.role = some .object ∧ object.Within l.node

theorem outwardFrom_pairwise (n : Node) (above : List Node) (h : Cursor.In tree ⟨n, above⟩) :
    (⟨n, above⟩ :: outwardFrom n above).Pairwise InQualifier := by
  induction above generalizing n with
  | nil => exact List.pairwise_singleton _ _
  | cons m above ih =>
    rw [outwardFrom]
    split
    case isFalse => exact List.pairwise_singleton _ _
    case isTrue hm =>
      rw [Bool.and_eq_true, beq_iff_eq] at hm
      have hrest := ih m h.up.1
      refine List.pairwise_cons.mpr ⟨fun l hl => ?_, hrest⟩
      rcases List.mem_cons.mp hl with rfl | hl
      · exact ⟨n, h.up.2, hm.2, .self⟩
      · obtain ⟨object, hobject, hrole, hwithin⟩ := List.rel_of_pairwise_cons hrest hl
        exact ⟨object, hobject, hrole, hwithin.child h.up.2⟩

theorem links_pairwise {c : Cursor} (h : Cursor.In tree c) : (links c).Pairwise InQualifier := by
  unfold links
  cases hcall : c.isCall with
  | false => exact .nil
  | true =>
    have hroot := rootCall_in h hcall
    simp only [if_true, outward, hroot.2]
    exact outwardFrom_pairwise _ _ hroot.1

theorem before_of_inQualifier (hf : f.Regular) {l m : Cursor} {a b : Call} (hl : Cursor.In f.tree l)
    (hm : Cursor.In f.tree m) (h : InQualifier l m) (ha : readCall? f l.node = some a)
    (hb : readCall? f m.node = some b) : a.Before f.text b := by
  obtain ⟨object, hobject, hrole, hwithin⟩ := h
  obtain ⟨-, -, -, -, -, -, haspan, -⟩ := readCall?_eq ha
  obtain ⟨hcall, name, arguments, hname, harguments, -, hbspan, hnameSpan, hargsSpan, -⟩ := readCall?_eq hb
  have hplaced := hm.placed hf.placed
  have hqualified := (hm.all hf.nodes).self.qualified hcall
  have hinside := hplaced.laid.of_mem hobject
  obtain ⟨hstart, hstop⟩ := hwithin.inside hinside.2.2
  refine ⟨readCall?_placed (hl.placed hf.placed) ha, readCall?_placed hplaced hb, ?_, ?_, ?_⟩
  · rw [haspan, hbspan]
    exact Nat.le_trans hinside.1 hstart
  · rw [haspan, hnameSpan]
    exact Nat.le_trans hstop (stop_object_le hplaced.wellFormed hqualified hobject hrole hname (by decide))
  · rw [haspan, hargsSpan]
    exact Nat.le_trans hstop (stop_object_le hplaced.wellFormed hqualified hobject hrole harguments (by decide))

theorem chainOf_before (hf : f.Regular) {c : Cursor} (h : Cursor.In f.tree c) :
    (∀ call ∈ (chainOf f c).calls, call.Placed f.text) ∧
      (chainOf f c).calls.Pairwise (Call.Before f.text) := by
  refine ⟨fun call hcall => ?_, ?_⟩
  · obtain ⟨l, hl, -, hread⟩ := exists_link h hcall
    exact readCall?_placed (hl.placed hf.placed) hread
  · refine List.pairwise_filterMap.mpr ((links_pairwise h).imp_of_mem fun {l m} hl hm hlm a ha b hb => ?_)
    exact before_of_inQualifier hf (links_in h l hl).1 (links_in h m hm).1 hlm ha hb

/-- A chain whose calls hang together. -/
structure Linked (chain : Chain) : Prop where
  follows : chain.calls.IsChain Call.Follows
  names : ∀ call ∈ chain.calls, call.nameSpan.start ≤ call.span.stop

theorem chainOf_linked (hf : f.Sound) {c : Cursor} (h : Cursor.In f.tree c) : (chainOf f c).Linked where
  follows := chainOf_follows hf h
  names := fun call hcall => ((chainOf_before hf.regular h).1 call hcall).name.2

theorem Linked.stops {chain : Chain} (h : chain.Linked) :
    chain.calls.Pairwise fun a b => a.span.stop ≤ b.nameSpan.start := by
  -- a name stands between the calls before it and the end of its own
  let R (a b : Call) : Prop := a.span.stop ≤ b.nameSpan.start ∧ b.nameSpan.start ≤ b.span.stop
  have : IsTrans Call R := ⟨fun _ _ _ hab hbc => ⟨Nat.le_trans hab.1 (Nat.le_trans hab.2 hbc.1), hbc.2⟩⟩
  have hchain : chain.calls.IsChain R :=
    h.follows.imp_of_mem_imp fun a b _ hb hab => ⟨hab.name, h.names b hb⟩
  exact (List.isChain_iff_pairwise.mp hchain).imp fun hab => hab.1

mutual

theorem getLast_inwardFrom : ∀ {n : Node} {above : List Node}, ∀ r ∈ inwardFrom n above,
    (outwardFrom r.node r.above).getLastD r = (outwardFrom n above).getLastD ⟨n, above⟩
  | .mk kind role span children, above, r, hr => by
    rw [inwardFrom] at hr
    split at hr
    case isFalse => cases hr
    case isTrue hkind =>
      rcases List.mem_cons.mp hr with rfl | hr
      · rfl
      · exact getLast_inwardAmong (n := .mk kind role span children) hkind r hr

theorem getLast_inwardAmong : ∀ {ns above : List Node} {n : Node}, n.isCall = true →
    ∀ r ∈ inwardAmong ns (n :: above),
      (outwardFrom r.node r.above).getLastD r = (outwardFrom n above).getLastD ⟨n, above⟩
  | [], _, _, _, r, hr => by cases hr
  | m :: ms, above, n, hn, r, hr => by
    rw [inwardAmong] at hr
    split at hr
    case isFalse => exact getLast_inwardAmong hn r hr
    case isTrue hrole =>
      rw [getLast_inwardFrom r hr, outwardFrom, hn, hrole, Bool.and_self, if_pos rfl, List.getLastD_cons]

end

theorem getLast?_links {c : Cursor} (h : Cursor.In tree c) (hcall : c.isCall = true) :
    (links c).getLast? = some (outermostCall c) := by
  have hroot := rootCall_in h hcall
  rw [links, if_pos hcall, outward, if_pos hroot.2, List.getLast?_cons, ← List.getLastD_eq_getLast?,
    getLast_inwardFrom _ (rootCall_mem hcall), outermostCall, outward, if_pos hcall]

theorem outermostCall_in {c : Cursor} (h : Cursor.In tree c) (hcall : c.isCall = true) :
    Cursor.In tree (outermostCall c) ∧ (outermostCall c).isCall = true :=
  links_in h _ (List.mem_of_getLast? (getLast?_links h hcall))

theorem first?_chainOf {c : Cursor} {first : Call} (hcall : c.isCall = true)
    (h : readCall? f (rootCall c).node = some first) : (chainOf f c).first? = some first := by
  rw [chainOf, links, if_pos hcall, Chain.first?, List.filterMap_cons, h]
  rfl

theorem exists_span_chainOf {c : Cursor} (h : Cursor.In f.tree c) (hne : (chainOf f c).calls ≠ []) :
    ∃ l, Cursor.In f.tree l ∧ l.isCall = true ∧ (outermostCall c).node.Within l.node ∧
      (chainOf f c).span = l.span := by
  obtain ⟨last, hlast⟩ : ∃ last, (chainOf f c).calls.getLast? = some last := ⟨_, List.getLast?_eq_some_getLast hne⟩
  obtain ⟨l, hl, hread⟩ := List.mem_filterMap.mp (List.mem_of_getLast? hlast)
  obtain ⟨hin, hisCall⟩ := links_in h l hl
  obtain ⟨-, -, -, -, -, -, hspan, -⟩ := readCall?_eq hread
  refine ⟨l, hin, hisCall, ?_, ?_⟩
  · have hcall : c.isCall = true := by
      unfold links at hl
      split at hl
      case isTrue hcall => exact hcall
      case isFalse => cases hl
    obtain ⟨front, hlinks⟩ := List.getLast?_eq_some_iff.mp (getLast?_links h hcall)
    have hrow := links_pairwise h
    rw [hlinks] at hl hrow
    rcases List.mem_append.mp hl with hfront | houter
    · obtain ⟨object, hobject, -, hwithin⟩ := (List.pairwise_append.mp hrow).2.2 l hfront _ (.head [])
      exact (Node.Within.child .self hobject).trans hwithin
    · rw [List.mem_singleton.mp houter]
      exact .self
  · rw [Chain.span, hlast, Option.map_some, Option.getD_some, hspan]
    rfl

theorem getLast?_chainOf (hf : f.Sound) {c : Cursor} (h : Cursor.In f.tree c) (hcall : c.isCall = true) :
    Cursor.In f.tree (outermostCall c) ∧ (outermostCall c).isCall = true ∧
      ∃ last, (chainOf f c).calls.getLast? = some last ∧ readCall? f (outermostCall c).node = some last := by
  have hlast := getLast?_links h hcall
  obtain ⟨hin, hisCall⟩ := outermostCall_in h hcall
  obtain ⟨last, hread⟩ := exists_readCall?_of_in hf hin hisCall
  obtain ⟨front, hlinks⟩ := List.getLast?_eq_some_iff.mp hlast
  refine ⟨hin, hisCall, last, ?_, hread⟩
  simp [chainOf, hlinks, hread]

theorem span_chainOf (hf : f.Sound) {c : Cursor} (h : Cursor.In f.tree c) (hcall : c.isCall = true) :
    (chainOf f c).span = (outermostCall c).span := by
  obtain ⟨-, -, last, hlast, hread⟩ := getLast?_chainOf hf h hcall
  obtain ⟨-, -, -, -, -, -, hspan, -⟩ := readCall?_eq hread
  rw [Chain.span, hlast, Option.map_some, Option.getD_some, hspan]
  rfl

end MockDialect.Chain
