import MockDialect.Proofs.Chain.Partition
import MockDialect.Proofs.Java.Covering

namespace MockDialect.Chain

open Api Java Source Text

variable {f : File} {n : Node} {c : Cursor}

theorem text_readArg (n : Node) : (readArg f n).text = f.spell n := by
  cases n
  rfl

theorem apiType_readArg (n : Node) : (readArg f n).apiType = f.names.typeOf n := by
  cases n
  rfl

theorem kind_readArg_call {call : Call} (h : readCall? f n = some call) : (readArg f n).kind = .call call := by
  obtain ⟨kind, role, span, children⟩ := n
  obtain ⟨hcall, -⟩ := readCall?_eq h
  rw [readCall?, if_pos hcall] at h
  have hkind : (kind == .methodInvocation) = true := hcall
  rw [readArg]
  dsimp only
  rw [if_pos hkind, show callFrom? f (.mk kind role span children) (readArgsAmong f children) = some call from h]

theorem kind_readArg (hcall : n.isCall = false) : (readArg f n).kind = plainKind f n := by
  obtain ⟨kind, role, span, children⟩ := n
  have hkind : (kind == .methodInvocation) = false := hcall
  rw [readArg]
  dsimp only
  rw [if_neg (Bool.eq_false_iff.mp hkind)]

theorem readArgs_children (n : Node) : readArgs f n.children = n.codeChildren.map (readArg f) := by
  rw [readArgs_eq, Node.codeChildren, Node.namedChildren, List.filter_filter]
  refine congrArg _ (List.filter_congr fun m _ => ?_)
  cases m.isComment <;> simp [bne]

theorem args_of_readCall? {call : Call} {list : Node} (h : readCall? f n = some call)
    (hlist : n.child? .arguments = some list) : call.args = list.codeChildren.map (readArg f) := by
  obtain ⟨-, -, -, -, -, -, -, -, -, hargs, -⟩ := readCall?_eq h
  rw [hargs, readArgsAmong_eq hlist, readArgs_children]

theorem mem_children_of_mem_codeChildren {m : Node} (h : m ∈ n.codeChildren) : m ∈ n.children :=
  List.mem_of_mem_filter (List.mem_of_mem_filter h)

/-- A node that reads a call of a method, on something and with some arguments. -/
def Invokes (f : File) (method : String) (on : Node → Prop) (args : List Node → Prop) (n : Node) : Prop :=
  n.isCall = true ∧ (n.child? .name).map f.spell = some method ∧ (∃ object ∈ n.child? .object, on object) ∧
    ∃ list ∈ n.child? .arguments, args list.codeChildren

instance (f : File) (method : String) (on : Node → Prop) (args : List Node → Prop) (n : Node) [DecidablePred on]
    [DecidablePred args] : Decidable (Invokes f method on args n) :=
  inferInstanceAs (Decidable (_ ∧ _ ∧ _ ∧ _))

theorem Invokes.exists_readCall? {method : String} {on : Node → Prop} {args : List Node → Prop}
    (h : Invokes f method on args n) : ∃ call object list, readCall? f n = some call ∧ call.name = method ∧
      n.child? .object = some object ∧ on object ∧ n.child? .arguments = some list ∧ args list.codeChildren ∧
      call.args = list.codeChildren.map (readArg f) := by
  obtain ⟨hcall, hname, ⟨object, hobject, hon⟩, list, hlist, hargs⟩ := h
  obtain ⟨name, hname, hspell⟩ := Option.map_eq_some_iff.mp hname
  have hread : ∃ call, readCall? f n = some call ∧ call.name = f.spell name := by
    rw [readCall?, if_pos hcall, callFrom?, hname, Option.mem_def.mp hlist]
    exact ⟨_, rfl, rfl⟩
  obtain ⟨call, hread, hcalled⟩ := hread
  exact ⟨call, object, list, hread, hcalled.trans hspell, hobject, hon, hlist, hargs, args_of_readCall? hread hlist⟩

/-- A node that reads an entry class. -/
def ClassAt (f : File) (cls : EntryClass) (n : Node) : Prop := n.kind = .identifier ∧ f.spell n = cls.simpleName

instance (f : File) (cls : EntryClass) (n : Node) : Decidable (ClassAt f cls n) := inferInstanceAs (Decidable (_ ∧ _))

def ImportsLibrary (f : File) : Prop := "org.mockito" ∈ f.imports.onDemand

instance (f : File) : Decidable (ImportsLibrary f) := inferInstanceAs (Decidable (_ ∈ _))

theorem entryClass?_simpleName {imports : Imports} (h : "org.mockito" ∈ imports.onDemand) (cls : EntryClass) :
    imports.entryClass? cls.simpleName = some cls := by
  have hnames : ∀ cls' : EntryClass, imports.resolves cls.simpleName cls'.qualifiedName = (cls' == cls) := by
    intro cls'
    have hpackage : packageName cls'.qualifiedName = "org.mockito" := by cases cls' <;> decide +kernel
    rw [Imports.resolves, hpackage, List.contains_iff_mem.mpr h, Bool.or_true, Bool.and_true]
    cases cls <;> cases cls' <;> decide +kernel
  simp only [Imports.entryClass?, hnames]
  cases cls <;> rfl

theorem receiverAmong_of_find? {names : Names} {ns : List Node} {object : Node} {cls : EntryClass} (method : String)
    (h : ns.find? (·.role == some .object) = some object) (hcls : names.entryClass? object = some cls) :
    names.receiverAmong method ns = Names.throughClass cls method := by
  induction ns with
  | nil => cases h
  | cons n ns ih =>
    rw [Names.receiverAmong]
    by_cases hrole : (n.role == some .object) = true
    · rw [List.find?_cons_of_pos (p := fun m : Node => m.role == some .object) hrole] at h
      rw [if_pos hrole, Option.some.inj h, hcls]
    · rw [List.find?_cons_of_neg (p := fun m : Node => m.role == some .object) hrole] at h
      rw [if_neg hrole, ih h]

theorem receiver_of_classAt {call : Call} {object : Node} {cls : EntryClass} (himports : ImportsLibrary f)
    (h : readCall? f n = some call) (hobject : n.child? .object = some object) (hcls : ClassAt f cls object) :
    call.receiver = Names.throughClass cls call.name := by
  obtain ⟨-, name, -, hname, -, hspell, -, -, -, -, -, hreceiver⟩ := readCall?_eq h
  obtain ⟨hkind, hclass⟩ := hcls
  have hentry : f.names.entryClass? object = some cls := by
    rw [Names.entryClass?, Names.isPath, hkind]
    exact (congrArg f.imports.entryClass? hclass).trans (entryClass?_simpleName himports cls)
  rw [hreceiver, receiver_eq f.names hname, receiverAmong_of_find? _ hobject hentry, hspell]
  rfl

theorem kind_of_arguments (hf : f.Sound) (hin : f.tree.Within n) (hcall : n.isCall = true) {list : Node}
    (hlist : n.child? .arguments = some list) : list.kind = .argumentList :=
  (hin.all hf.formed).self.argued hcall list (Node.mem_children_of_child? hlist) (Node.role_of_child? hlist)

theorem argument_in {tree list m : Node} {above : List Node} (hin : Cursor.In tree ⟨n, above⟩)
    (hlist : n.child? .arguments = some list) (hm : m ∈ list.codeChildren) :
    Cursor.In tree ⟨m, list :: n :: above⟩ :=
  .down (.down hin (Node.mem_children_of_child? hlist)) (mem_children_of_mem_codeChildren hm)

theorem outermostCall_argument {list m : Node} {above : List Node} (hkind : list.kind = .argumentList) :
    outermostCall ⟨m, list :: above⟩ = ⟨m, list :: above⟩ := by
  have hlist : list.isCall = false := by
    rw [Node.isCall, hkind]
    rfl
  rw [outermostCall, outward, outwardFrom, hlist, Bool.false_and]
  cases Cursor.isCall ⟨m, list :: above⟩ <;> rfl

theorem mem_takeWhile_outward {d : Cursor} {p : Cursor → Bool} (h : c ∈ Cursor.outward d.node d.above)
    (hp : ∀ e ∈ Cursor.outward d.node d.above, c ∈ Cursor.outward e.node e.above → p e = true) :
    c ∈ (Cursor.outward d.node d.above).takeWhile p := by
  obtain ⟨n, above⟩ := d
  dsimp only at h hp ⊢
  induction above generalizing n with
  | nil =>
    obtain rfl := List.mem_singleton.mp h
    rw [Cursor.outward, List.takeWhile_cons_of_pos (hp _ h h)]
    exact .head _
  | cons m above ih =>
    rw [Cursor.outward, List.takeWhile_cons_of_pos (hp ⟨n, m :: above⟩ (.head _) h)]
    rcases List.mem_cons.mp h with rfl | h
    · exact .head _
    · exact .tail _ (ih m h fun e he => hp e (.tail _ he))

theorem callWithSpan?_in {span : Span} (h : f.callWithSpan? span = some c) :
    Cursor.In f.tree c ∧ c.isCall = true := by
  have hstart : Cursor.In f.tree (Cursor.innermost span.start span.stop f.tree []) := Cursor.In.innermost .root
  have hfound := List.find?_some h
  simp only [Bool.and_eq_true] at hfound
  exact ⟨hstart.outward c (List.takeWhile_subset _ (List.mem_of_find?_eq_some h)), hfound.1⟩

section

variable (hf : f.Sound) (hsolid : f.Solid)
  (hc : Cursor.In f.tree c) (hcall : c.isCall = true)

include hf hsolid hc hcall

theorem callWithSpan?_span : f.callWithSpan? c.span = some c := by
  have hcovers : Cursor.covers c.span.start c.span.stop c.node = true :=
    Cursor.covers_iff.mpr ⟨Nat.le_refl _, (hsolid.call hc hcall).self.nonempty, Nat.le_refl _⟩
  have hstart : Cursor.In f.tree (Cursor.innermost c.span.start c.span.stop c.node c.above) := hc.innermost
  rw [File.callWithSpan?, hc.innermost_eq hf.placed hcovers]
  generalize hfound : List.find? _ _ = found
  -- the places from the innermost one up to the call are in its range, so the call is among those searched
  have hsome : found.isSome = true := by
    rw [← hfound, List.find?_isSome]
    refine ⟨c, mem_takeWhile_outward Cursor.mem_outward_innermost fun e he hbelow => ?_, by simp [hcall]⟩
    have hwithin := (hstart.outward e he).outward_within c hbelow
    simp only [Bool.and_eq_true, decide_eq_true_eq]
    exact hwithin.inside (hc.placed hf.placed)
  obtain ⟨d, rfl⟩ := Option.isSome_iff_exists.mp hsome
  have hd := hstart.outward d (List.takeWhile_subset _ (List.mem_of_find?_eq_some hfound))
  have hmatch := List.find?_some hfound
  simp only [Bool.and_eq_true, beq_iff_eq] at hmatch
  rw [eq_of_span (chainable_of_sound hf hsolid) hd hmatch.1 hc hcall hmatch.2]

theorem narrower_of_mem_args {call : Call} (hmem : call ∈ (chainOf f c).calls) {arg : Arg} (harg : arg ∈ call.args) :
    ∃ m, arg = readArg f m ∧ f.tree.Within m ∧
      m.span.stop - m.span.start < (outermostCall c).span.stop - (outermostCall c).span.start := by
  obtain ⟨l, hl, hlcall, hread⟩ := exists_link hc hmem
  obtain ⟨-, -, list, -, hlist, -, hspan, -⟩ := readCall?_eq hread
  rw [args_of_readCall? hread hlist] at harg
  obtain ⟨m, hm, rfl⟩ := List.mem_map.mp harg
  have hlistMem := Node.mem_children_of_child? hlist
  have hplaced := hl.placed hf.placed
  have hmMem := mem_children_of_mem_codeChildren hm
  refine ⟨m, rfl, (hl.within.child hlistMem).child hmMem, ?_⟩
  have hexceeds := exceeds_child hplaced.wellFormed
    (wholeCall_of_solid (hl.all hf.formed).self (hsolid.call hl hlcall) hlcall) hlistMem
  have hlistIn := hplaced.laid.of_mem hlistMem
  have hmIn := hlistIn.2.2.laid.of_mem hmMem
  have hmOrdered := hmIn.2.2.wellFormed.ordered
  -- the call ends with the last one or before it
  have hend : call.span.start = (outermostCall c).span.start ∧ call.span.stop ≤ (outermostCall c).span.stop := by
    obtain ⟨hlast, -, last, hgetLast, hlastRead⟩ := getLast?_chainOf hf hc hcall
    obtain ⟨-, -, -, -, -, -, hlastSpan, -⟩ := readCall?_eq hlastRead
    have htied := chainOf_tied (chainable_of_sound hf hsolid) hc hcall
    obtain ⟨front, hfront⟩ := List.getLast?_eq_some_iff.mp hgetLast
    have hstarts := htied.starts call hmem last (List.mem_of_getLast? hgetLast)
    have hstops := htied.stops
    rw [hfront] at hmem hstops
    have hle : call.span.stop ≤ last.span.stop := by
      rcases List.mem_append.mp hmem with hfrontMem | hlastMem
      · exact Nat.le_of_lt ((List.pairwise_append.mp hstops).2.2 call hfrontMem last (.head _))
      · rw [List.mem_singleton.mp hlastMem]
    rw [hlastSpan] at hstarts hle
    exact ⟨hstarts, hle⟩
  rw [hspan] at hend
  omega

end

end MockDialect.Chain
