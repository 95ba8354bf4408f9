import MockDialect.Proofs.Chain.Placed
import MockDialect.Proofs.Java.Extent

namespace MockDialect.Chain

open Java Source Text

variable {f : File} {tree : Node} {c d l : Cursor}

theorem inwardAmong_of_find? {ns : List Node} {object : Node} (above : List Node)
    (h : ns.find? (·.role == some .object) = some object) : inwardAmong ns above = inwardFrom object above := by
  induction ns with
  | nil => cases h
  | cons n ns ih =>
    rw [inwardAmong]
    by_cases hrole : (n.role == some .object) = true
    · rw [List.find?_cons_of_pos (p := fun m : Node => m.role == some .object) hrole] at h
      rw [if_pos hrole, Option.some.inj h]
    · rw [List.find?_cons_of_neg (p := fun m : Node => m.role == some .object) hrole] at h
      rw [if_neg hrole, ih h]

theorem inwardFrom_of_child? {n object : Node} (above : List Node) (hcall : n.isCall = true)
    (hobject : n.child? .object = some object) :
    inwardFrom n above = ⟨n, above⟩ :: inwardFrom object (n :: above) := by
  obtain ⟨kind, role, span, children⟩ := n
  have hkind : (kind == .methodInvocation) = true := hcall
  have hfound : children.find? (·.role == some .object) = some object := hobject
  rw [inwardFrom, if_pos hkind, inwardAmong_of_find? _ hfound]

theorem inwardFrom_outwardFrom (hqualified : tree.All Node.Qualified) {n : Node} {above : List Node}
    (h : Cursor.In tree ⟨n, above⟩) :
    inward ((outwardFrom n above).getLastD ⟨n, above⟩) = (outwardFrom n above).reverse ++ inwardFrom n above := by
  induction above generalizing n with
  | nil => rfl
  | cons m above ih =>
    obtain ⟨hup, hn⟩ := h.up
    rw [outwardFrom]
    split
    case isFalse => rfl
    case isTrue hchained =>
      rw [Bool.and_eq_true, beq_iff_eq] at hchained
      rw [List.getLastD_cons, ih hup, List.reverse_cons, List.append_assoc, List.singleton_append,
        inwardFrom_of_child? above hchained.1
          (child?_object ((hup.all hqualified).self hchained.1) hn hchained.2)]

mutual

theorem inward_getLast : ∀ {n : Node} {above : List Node}, ∀ r ∈ (inwardFrom n above).getLast?, inward r = [r]
  | .mk kind role span children, above, r, hr => by
    rw [inwardFrom] at hr
    split at hr
    case isFalse => cases hr
    case isTrue hkind =>
      rw [List.getLast?_cons] at hr
      cases hamong : (inwardAmong children (.mk kind role span children :: above)).getLast? with
      | none =>
        rw [hamong] at hr
        obtain rfl := Option.some.inj hr
        change inwardFrom (.mk kind role span children) above = _
        rw [inwardFrom, if_pos hkind, List.getLast?_eq_none_iff.mp hamong]
        rfl
      | some last =>
        rw [hamong] at hr
        obtain rfl := Option.some.inj hr
        exact inward_getLast_among last hamong

theorem inward_getLast_among : ∀ {ns above : List Node}, ∀ r ∈ (inwardAmong ns above).getLast?, inward r = [r]
  | [], _, r, hr => by cases hr
  | n :: ns, above, r, hr => by
    rw [inwardAmong] at hr
    split at hr
    · exact inward_getLast r hr
    · exact inward_getLast_among r hr

end

theorem inward_eq_cons (hcall : c.isCall = true) : ∃ rest, inward c = c :: rest := by
  obtain ⟨⟨kind, role, span, children⟩, above⟩ := c
  have hkind : (kind == .methodInvocation) = true := hcall
  exact ⟨_, by rw [inward, inwardFrom, if_pos hkind]⟩

theorem inward_rootCall (hcall : c.isCall = true) : inward (rootCall c) = [rootCall c] := by
  obtain ⟨rest, hrest⟩ := inward_eq_cons hcall
  have hlast : (inward c).getLast? = some (rootCall c) := by
    rw [rootCall, hrest, List.getLastD_cons, List.getLast?_cons, List.getLastD_eq_getLast?]
  exact inward_getLast _ hlast

theorem previous?_eq_some_iff :
    previous? c = some d ↔ ∃ object, c.node.child? .object = some object ∧ object.isCall = true ∧
      d = ⟨object, c.node :: c.above⟩ := by
  unfold previous? Cursor.child?
  cases hobject : c.node.child? .object with
  | none => simp
  | some object =>
    by_cases hcall : object.isCall = true
    · simp only [Option.map_some, Cursor.isCall, hcall, if_true, Option.some.injEq, exists_eq_left', true_and]
      exact eq_comm
    · simp [Cursor.isCall, hcall]

theorem inward_of_previous? (hcall : c.isCall = true) (h : previous? c = some d) : inward c = c :: inward d := by
  obtain ⟨object, hobject, -, rfl⟩ := previous?_eq_some_iff.mp h
  exact inwardFrom_of_child? c.above hcall hobject

theorem previous?_rootCall (hcall : c.isCall = true) (hroot : (rootCall c).isCall = true) :
    previous? (rootCall c) = none := by
  rw [Option.eq_none_iff_forall_ne_some]
  intro d hd
  have hdcall : d.isCall = true := by
    obtain ⟨object, -, hobject, rfl⟩ := previous?_eq_some_iff.mp hd
    exact hobject
  obtain ⟨rest, hrest⟩ := inward_eq_cons hdcall
  have hinward := inward_of_previous? hroot hd
  rw [inward_rootCall hcall, hrest] at hinward
  cases (List.cons.inj hinward).2

theorem outermostCall_rootCall (h : Cursor.In tree c) (hcall : c.isCall = true) :
    outermostCall (rootCall c) = outermostCall c := by
  rw [outermostCall, outermostCall, outward, outward, if_pos hcall, if_pos (rootCall_in h hcall).2]
  exact getLast_inwardFrom _ (rootCall_mem hcall)

section

variable (hqualified : tree.All Node.Qualified) (h : Cursor.In tree c) (hcall : c.isCall = true)

include hqualified h hcall

theorem inward_outermostCall : inward (outermostCall c) = (outward c).reverse ++ inward c := by
  rw [outermostCall, outward, if_pos hcall]
  exact inwardFrom_outwardFrom hqualified h

theorem inward_outermostCall_eq_reverse : inward (outermostCall c) = (links c).reverse := by
  obtain ⟨hroot, hrootCall⟩ := rootCall_in h hcall
  rw [← outermostCall_rootCall h hcall, inward_outermostCall hqualified hroot hrootCall, inward_rootCall hcall, links,
    if_pos hcall, List.reverse_cons]

theorem mem_links_self : c ∈ links c := by
  obtain ⟨rest, hrest⟩ := inward_eq_cons hcall
  rw [← List.mem_reverse, ← inward_outermostCall_eq_reverse hqualified h hcall,
    inward_outermostCall hqualified h hcall, hrest]
  exact List.mem_append_right _ (.head rest)

theorem outermostCall_of_mem (hl : l ∈ links c) : outermostCall l = outermostCall c := by
  -- all links are inwards from the last one, and from there the walk outwards ends where it begins
  have hends : ∀ r ∈ links c, outermostCall r = outermostCall (outermostCall c) := by
    intro r hr
    have hcalls := links_in h r hr
    have hlast := outermostCall_in h hcall
    rw [← List.mem_reverse, ← inward_outermostCall_eq_reverse hqualified h hcall] at hr
    have hwalks := getLast_inwardFrom r hr
    rw [outermostCall, outward, if_pos hcalls.2, hwalks, outermostCall.eq_1 (outermostCall c), outward, if_pos hlast.2]
  exact (hends l hl).trans (hends c (mem_links_self hqualified h hcall)).symm

end

theorem links_eq_of_outermostCall (hqualified : tree.All Node.Qualified) (hc : Cursor.In tree c)
    (hccall : c.isCall = true) (hd : Cursor.In tree d) (hdcall : d.isCall = true)
    (h : outermostCall c = outermostCall d) : links c = links d := by
  rw [← List.reverse_inj, ← inward_outermostCall_eq_reverse hqualified hc hccall, h,
    inward_outermostCall_eq_reverse hqualified hd hdcall]

/-- A call with all its parts: the qualifier, if there is one, is at its beginning, and the name and the arguments
are not empty. -/
structure WholeCall (n : Node) : Prop where
  qualified : ∀ m ∈ n.children.tail, m.role ≠ some .object
  begins : ∀ m ∈ n.children, m.role = some .object → m.span.start = n.span.start
  named : ∃ m ∈ n.children, m.role = some .name
  applied : ∃ m ∈ n.children, m.role = some .arguments
  nonempty : ∀ m ∈ n.children, m.role = some .name ∨ m.role = some .arguments → m.span.start < m.span.stop

/-- A tree whose ranges nest and follow one another and whose calls have all their parts. -/
structure Chainable (tree : Node) : Prop where
  nested : tree.WellFormed
  whole : tree.All fun n => n.isCall = true → WholeCall n

theorem Chainable.qualified (h : Chainable tree) : tree.All Node.Qualified :=
  h.whole.imp fun hn hcall => (hn hcall).qualified

theorem Chainable.exists_readCall? (hf : Chainable f.tree) (h : Cursor.In f.tree c) (hcall : c.isCall = true) :
    ∃ call, readCall? f c.node = some call :=
  have hwhole := (h.all hf.whole).self hcall
  Chain.exists_readCall? hcall hwhole.named hwhole.applied

theorem wholeCall_of_solid {text : List Char} {n : Node} (hformed : n.Formed text) (hsolid : n.All Node.Solid)
    (hcall : n.isCall = true) : WholeCall n where
  qualified := hformed.qualified
  begins := fun m hm hrole => by
    obtain ⟨rest, hchildren⟩ := children_of_object hformed.qualified hm hrole
    exact hsolid.self.begins m (by rw [hchildren]; rfl)
  named := hformed.named hcall
  applied := hformed.applied hcall
  nonempty := fun _ hm _ => (hsolid.child hm).self.nonempty

theorem chainable_of_sound (hf : f.Sound) (hsolid : f.Solid) : Chainable f.tree where
  nested := hf.placed.wellFormed
  whole := Node.all_of_within fun n hn hcall => by
    obtain ⟨above, hin⟩ := Cursor.exists_in hn
    exact wholeCall_of_solid (hin.all hf.formed).self (hsolid.call hin hcall) hcall

theorem exceeds_child {n k : Node} (hn : n.WellFormed) (hwhole : WholeCall n) (hk : k ∈ n.children) :
    n.span.start < k.span.start ∨ k.span.stop < n.span.stop := by
  obtain ⟨other, hother, hpart, hne⟩ : ∃ other ∈ n.children,
      (other.role = some .name ∨ other.role = some .arguments) ∧ other ≠ k := by
    obtain ⟨name, hname, hnamed⟩ := hwhole.named
    obtain ⟨arguments, harguments, happlied⟩ := hwhole.applied
    by_cases heq : name = k
    · refine ⟨arguments, harguments, .inr happlied, fun heq' => ?_⟩
      rw [heq', ← heq, hnamed] at happlied
      cases happlied
    · exact ⟨name, hname, .inl hnamed, heq⟩
  have hinside := (hn.child hother).2
  have hnonempty := hwhole.nonempty other hother hpart
  have hapart := hn.apart hother hk hne
  omega

theorem lt_of_wholeCall {n : Node} (hn : n.WellFormed) (hwhole : WholeCall n) : n.span.start < n.span.stop := by
  obtain ⟨name, hname, hrole⟩ := hwhole.named
  have hinside := (hn.child hname).2
  have hnonempty := hwhole.nonempty name hname (.inl hrole)
  omega

section

variable (hf : Chainable tree)

include hf

theorem eq_of_mem_outward (hc : Cursor.In tree c) (hcall : c.isCall = true) (hd : Cursor.In tree d)
    (hmem : c ∈ Cursor.outward d.node d.above) (hspan : c.span = d.span) : c = d := by
  rcases Cursor.cases_of_mem_outward hd hmem with heq | ⟨k, hk, -, hwithin⟩
  · exact heq
  · have hnested := (hf.nested.within hc.within).1
    have hinside := hnested.child hk
    have hbelow := (hinside.1.within hwithin).2
    have hexceeds := exceeds_child hnested ((hc.all hf.whole).self hcall) hk
    rw [show d.node.span = c.node.span from hspan.symm] at hbelow
    omega

theorem eq_of_span (hc : Cursor.In tree c) (hccall : c.isCall = true) (hd : Cursor.In tree d)
    (hdcall : d.isCall = true) (hspan : c.span = d.span) : c = d := by
  rcases hc.nested_or_apart hf.nested hd with hmem | hmem | hapart
  · exact eq_of_mem_outward hf hc hccall hd hmem hspan
  · exact (eq_of_mem_outward hf hd hdcall hc hmem hspan.symm).symm
  · have hnonempty : c.span.start < c.span.stop :=
      lt_of_wholeCall (hf.nested.within hc.within).1 ((hc.all hf.whole).self hccall)
    rw [← hspan] at hapart
    omega

end

theorem outermostCall_of_common (hf : Chainable f.tree) (hc : Cursor.In f.tree c) (hccall : c.isCall = true)
    (hd : Cursor.In f.tree d) (hdcall : d.isCall = true) {call : Call} (hmemc : call ∈ (chainOf f c).calls)
    (hmemd : call ∈ (chainOf f d).calls) : outermostCall c = outermostCall d := by
  obtain ⟨l, hl, hread⟩ := List.mem_filterMap.mp hmemc
  obtain ⟨l', hl', hread'⟩ := List.mem_filterMap.mp hmemd
  obtain ⟨hlin, hlcall⟩ := links_in hc l hl
  obtain ⟨hlin', hlcall'⟩ := links_in hd l' hl'
  obtain ⟨-, -, -, -, -, -, hspan, -⟩ := readCall?_eq hread
  obtain ⟨-, -, -, -, -, -, hspan', -⟩ := readCall?_eq hread'
  obtain rfl := eq_of_span hf hlin hlcall hlin' hlcall' (hspan.symm.trans hspan')
  rw [← outermostCall_of_mem hf.qualified hc hccall hl, outermostCall_of_mem hf.qualified hd hdcall hl']

theorem chainOf_eq_of_outermostCall (hqualified : f.tree.All Node.Qualified) (hc : Cursor.In f.tree c)
    (hccall : c.isCall = true) (hd : Cursor.In f.tree d) (hdcall : d.isCall = true)
    (h : outermostCall c = outermostCall d) : chainOf f c = chainOf f d := by
  rw [chainOf, chainOf, links_eq_of_outermostCall hqualified hc hccall hd hdcall h]

theorem exists_mem_chainOf (hf : Chainable f.tree) (h : Cursor.In f.tree c) (hcall : c.isCall = true) :
    ∃ call ∈ (chainOf f c).calls, readCall? f c.node = some call := by
  obtain ⟨call, hread⟩ := hf.exists_readCall? h hcall
  exact ⟨call, List.mem_filterMap.mpr ⟨c, mem_links_self hf.qualified h hcall, hread⟩, hread⟩

/-- A call and the call that has it as its qualifier. -/
structure Call.Extends (f : File) (a b : Call) : Prop where
  qualifier : b.qualifier = some ⟨f.spanText a.span, a.span, .call⟩
  starts : b.span.start = a.span.start
  stops : a.span.stop < b.span.stop

theorem qualifierOf_call {n : Node} (hcall : n.isCall = true) : qualifierOf f n = ⟨f.spell n, n.span, .call⟩ := by
  obtain ⟨kind, role, span, children⟩ := n
  obtain rfl : kind = .methodInvocation := by simpa [Node.isCall, Node.kind] using hcall
  rfl

theorem extends_of_object {n m : Node} {a b : Call} (hm : m.WellFormed) (hwhole : WholeCall m) (hn : n ∈ m.children)
    (hrole : n.role = some .object) (ha : readCall? f n = some a) (hb : readCall? f m = some b) : a.Extends f b := by
  obtain ⟨hncall, -, -, -, -, -, has, -⟩ := readCall?_eq ha
  obtain ⟨-, -, arguments, -, hargs, -, hbs, -, -, -, hbq, -⟩ := readCall?_eq hb
  refine ⟨?_, ?_, ?_⟩
  · rw [hbq, child?_object hwhole.qualified hn hrole, has, Option.map_some, qualifierOf_call hncall]
    rfl
  · rw [hbs, has]
    exact (hwhole.begins n hn hrole).symm
  · -- the arguments are behind the qualifier and are not empty
    have hmem := Node.mem_children_of_child? hargs
    have hnonempty := hwhole.nonempty arguments hmem (.inr (Node.role_of_child? hargs))
    have hinside := (hm.child hmem).2.2
    have hbehind := stop_object_le hm hwhole.qualified hn hrole hargs (by decide)
    rw [hbs, has]
    omega

theorem qualifier_of_rootCall {a : Call} (hcall : c.isCall = true) (ha : readCall? f (rootCall c).node = some a) :
    ∀ q ∈ a.qualifier, q.kind ≠ .call := by
  intro q hq hkind
  obtain ⟨hroot, -, -, -, -, -, -, -, -, -, hqualifier, -⟩ := readCall?_eq ha
  obtain ⟨object, hobject, rfl⟩ := Option.map_eq_some_iff.mp (hqualifier ▸ hq)
  have hobjectCall : object.isCall = true := by
    unfold qualifierOf at hkind
    dsimp only at hkind
    split at hkind
    case h_1 hmethod =>
      rw [Node.isCall, hmethod]
      rfl
    all_goals cases hkind
  have hprevious : previous? (rootCall c) = some ⟨object, (rootCall c).node :: (rootCall c).above⟩ :=
    previous?_eq_some_iff.mpr ⟨object, hobject, hobjectCall, rfl⟩
  cases hprevious.symm.trans (previous?_rootCall hcall hroot)

/-- How the calls of a chain are tied together in a text. -/
structure Tied (f : File) (chain : Chain) : Prop where
  linked : chain.calls.IsChain fun a b => b.qualifier = some ⟨f.spanText a.span, a.span, .call⟩
  first : ∀ a ∈ chain.first?, ∀ q ∈ a.qualifier, q.kind ≠ .call
  starts : ∀ a ∈ chain.calls, ∀ b ∈ chain.calls, a.span.start = b.span.start
  stops : chain.calls.Pairwise fun a b => a.span.stop < b.span.stop

theorem chainOf_tied (hf : Chainable f.tree) (h : Cursor.In f.tree c) (hcall : c.isCall = true) :
    Tied f (chainOf f c) := by
  have hextends : (chainOf f c).calls.IsChain (Call.Extends f) := by
    refine chainOf_isChain (fun {n m above a b} hin hrole ha hb => ?_) hf.exists_readCall? h
    obtain ⟨hup, hn⟩ := hin.up
    exact extends_of_object (hf.nested.within hup.within).1 ((hup.all hf.whole).self (readCall?_eq hb).1) hn hrole ha hb
  -- the start stays and the ends grow from each call to the next, and so from each to all that follow
  have hstarts : (chainOf f c).calls.Pairwise fun a b => a.span.start = b.span.start := by
    have : IsTrans Call fun a b => a.span.start = b.span.start := ⟨fun _ _ _ => Eq.trans⟩
    exact List.isChain_iff_pairwise.mp (hextends.imp fun _ _ hab => hab.starts.symm)
  have hstops : (chainOf f c).calls.Pairwise fun a b => a.span.stop < b.span.stop := by
    have : IsTrans Call fun a b => a.span.stop < b.span.stop := ⟨fun _ _ _ => Nat.lt_trans⟩
    exact List.isChain_iff_pairwise.mp (hextends.imp fun _ _ hab => hab.stops)
  refine ⟨hextends.imp fun _ _ hab => hab.qualifier, fun a ha => ?_, fun a ha b hb => ?_, hstops⟩
  · obtain ⟨hroot, hrootCall⟩ := rootCall_in h hcall
    obtain ⟨first, hfirst⟩ := hf.exists_readCall? hroot hrootCall
    obtain rfl := Option.some.inj ((first?_chainOf hcall hfirst).symm.trans ha)
    exact qualifier_of_rootCall hcall hfirst
  · have : Std.Symm fun a b : Call => a.span.start = b.span.start := ⟨fun _ _ hab => hab.symm⟩
    exact List.Pairwise.forall_of_forall (fun x _ => (rfl : x.span.start = x.span.start)) hstarts ha hb

end MockDialect.Chain
