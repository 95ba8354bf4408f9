import Mathlib.Data.List.Chain
import MockDialect.Chain.Chain
import MockDialect.Proofs.Source.Sound

namespace MockDialect.Chain

open Api Java Source Text

/-- What a call chained on this one is made on. -/
def Call.successor (c : Call) : Receiver :=
  match c.receiver.result c.name with
  | some type => .object type
  | none => .unknown

theorem Call.successor_ne_entry {a : Call} (cls : EntryClass) : a.successor ≠ .entry cls := by
  unfold Call.successor
  split <;> exact Receiver.noConfusion

theorem Call.successor_eq_object_iff {a : Call} {type : ApiType} :
    a.successor = .object type ↔ a.receiver.result a.name = some type := by
  unfold Call.successor
  cases a.receiver.result a.name <;> simp

theorem Call.successor_eq_unknown_iff {a : Call} : a.successor = .unknown ↔ a.receiver.result a.name = none := by
  unfold Call.successor
  cases a.receiver.result a.name <;> simp

/-- A call and the call that is chained on it. -/
structure Call.Follows (a b : Call) : Prop where
  receiver : b.receiver = a.successor
  qualifier : ∃ text, b.qualifier = some ⟨text, a.span, .call⟩
  starts : b.span.start ≤ a.span.start
  name : a.span.stop ≤ b.nameSpan.start
  args : a.span.stop ≤ b.argsSpan.start

variable {f : File} {tree : Node}

theorem readCall?_eq {n : Node} {c : Call} (h : readCall? f n = some c) : n.isCall = true ∧
    ∃ name arguments, n.child? .name = some name ∧ n.child? .arguments = some arguments ∧
      c.name = f.spell name ∧ c.span = n.span ∧ c.nameSpan = name.span ∧ c.argsSpan = arguments.span ∧
      c.args = readArgsAmong f n.children ∧ c.qualifier = (n.child? .object).map (qualifierOf f) ∧
      c.receiver = f.names.receiver n := by
  rw [readCall?] at h
  split at h
  case isFalse => cases h
  case isTrue hcall =>
    rw [callFrom?] at h
    split at h
    case h_2 => cases h
    case h_1 name arguments hname harguments =>
      obtain rfl := Option.some.inj h
      exact ⟨hcall, name, arguments, hname, harguments, rfl, rfl, rfl, rfl, rfl, rfl, rfl⟩

theorem exists_child? {n : Node} {r : Role} (h : ∃ m ∈ n.children, m.role = some r) :
    ∃ m, n.child? r = some m := by
  obtain ⟨m, hm, hr⟩ := h
  rw [← Option.isSome_iff_exists, Node.child?, List.find?_isSome]
  exact ⟨m, hm, by simp [hr]⟩

theorem exists_object_of_receiverAmong {names : Names} {method : String} {ns : List Node} {type : ApiType}
    (h : names.receiverAmong method ns = .object type) : ∃ m ∈ ns, m.role = some .object := by
  induction ns with
  | nil =>
    rw [Names.receiverAmong] at h
    split at h <;> cases h
  | cons n ns ih =>
    rw [Names.receiverAmong] at h
    split at h
    case isTrue hrole => exact ⟨n, .head ns, by simpa using hrole⟩
    case isFalse =>
      obtain ⟨m, hm, hrole⟩ := ih h
      exact ⟨m, .tail n hm, hrole⟩

theorem exists_qualifierText? {n : Node} {c : Call} {type : ApiType} (h : readCall? f n = some c)
    (hreceiver : c.receiver = .object type) : ∃ text, c.qualifierText? = some text := by
  obtain ⟨-, -, -, -, -, -, -, -, -, -, hqualifier, hread⟩ := readCall?_eq h
  rw [hreceiver, Names.receiver] at hread
  split at hread
  case h_2 => cases hread
  case h_1 =>
    obtain ⟨object, hobject⟩ := exists_child? (exists_object_of_receiverAmong hread.symm)
    rw [Call.qualifierText?, hqualifier, hobject]
    exact ⟨_, rfl⟩

theorem exists_readCall? {n : Node} (hcall : n.isCall = true) (hnamed : ∃ m ∈ n.children, m.role = some .name)
    (happlied : ∃ m ∈ n.children, m.role = some .arguments) : ∃ c, readCall? f n = some c := by
  obtain ⟨name, hname⟩ := exists_child? hnamed
  obtain ⟨arguments, harguments⟩ := exists_child? happlied
  simp [readCall?, hcall, callFrom?, hname, harguments]

theorem exists_readCall?_of_in (hf : f.Sound) {c : Cursor} (h : Cursor.In f.tree c) (hcall : c.isCall = true) :
    ∃ call, readCall? f c.node = some call :=
  have hformed := (h.all hf.formed).self
  exists_readCall? hcall (hformed.named hcall) (hformed.applied hcall)

theorem receiver_eq {n name : Node} (names : Names) (hname : n.child? .name = some name) :
    names.receiver n = names.receiverAmong (names.spell name) n.children := by
  rw [Node.child?] at hname
  simp [Names.receiver, Names.methodName?, hname]

theorem typeOf_call {n name : Node} (names : Names) (hcall : n.isCall = true)
    (hname : n.child? .name = some name) :
    names.typeOf n = (names.receiver n).result (names.spell name) := by
  rw [receiver_eq names hname]
  obtain ⟨kind, role, span, children⟩ := n
  obtain rfl : kind = .methodInvocation := by simpa [Node.isCall, Node.kind] using hcall
  rw [Node.child?, Node.children_mk] at hname
  simp [Names.typeOf, Names.methodName?, hname]

theorem entryClass?_call {n : Node} (names : Names) (hcall : n.isCall = true) :
    names.entryClass? n = none := by
  obtain ⟨kind, role, span, children⟩ := n
  obtain rfl : kind = .methodInvocation := by simpa [Node.isCall, Node.kind] using hcall
  rfl

theorem children_of_object {n m : Node} (hqualified : ∀ x ∈ m.children.tail, x.role ≠ some .object)
    (hn : n ∈ m.children) (hrole : n.role = some .object) : ∃ rest, m.children = n :: rest := by
  cases hchildren : m.children with
  | nil =>
    rw [hchildren] at hn
    cases hn
  | cons first rest =>
    rw [hchildren] at hn hqualified
    rcases List.mem_cons.mp hn with rfl | hn
    · exact ⟨rest, rfl⟩
    · exact absurd hrole (hqualified n hn)

theorem child?_object {n m : Node} (hqualified : ∀ x ∈ m.children.tail, x.role ≠ some .object)
    (hn : n ∈ m.children) (hrole : n.role = some .object) : m.child? .object = some n := by
  obtain ⟨rest, hchildren⟩ := children_of_object hqualified hn hrole
  simp [Node.child?, hchildren, hrole]

theorem stop_object_le {n m x : Node} {r : Role} (hm : m.WellFormed)
    (hqualified : ∀ x ∈ m.children.tail, x.role ≠ some .object) (hn : n ∈ m.children) (hrole : n.role = some .object)
    (hx : m.child? r = some x) (hr : r ≠ .object) : n.span.stop ≤ x.span.start := by
  obtain ⟨rest, hchildren⟩ := children_of_object hqualified hn hrole
  have hxr := Node.role_of_child? hx
  have hmem := Node.mem_children_of_child? hx
  have hrow := hm.pairwise
  rw [hchildren] at hmem hrow
  rcases List.mem_cons.mp hmem with rfl | hmem
  · rw [hrole] at hxr
    exact absurd (Option.some.inj hxr).symm hr
  · exact List.rel_of_pairwise_cons hrow hmem

theorem follows_of_object {n m : Node} {a b : Call} (hm : m.WellFormed)
    (hqualified : ∀ x ∈ m.children.tail, x.role ≠ some .object) (hn : n ∈ m.children) (hrole : n.role = some .object)
    (ha : readCall? f n = some a) (hb : readCall? f m = some b) : a.Follows b := by
  obtain ⟨hncall, aname, aargs, haname, -, han, has, -, -, -, -, har⟩ := readCall?_eq ha
  obtain ⟨-, bname, bargs, hbname, hbargs, hbn, hbs, hbns, hbas, -, hbq, hbr⟩ := readCall?_eq hb
  obtain ⟨rest, hchildren⟩ := children_of_object hqualified hn hrole
  refine ⟨?_, ⟨f.spell n, ?_⟩, ?_, ?_, ?_⟩
  · rw [hbr, receiver_eq f.names hbname, hchildren, Call.successor, har, han]
    simp only [Names.receiverAmong, hrole, BEq.rfl, if_true, entryClass?_call f.names hncall,
      typeOf_call f.names hncall haname]
    rfl
  · rw [hbq, child?_object hqualified hn hrole, has]
    obtain ⟨kind, role, span, children⟩ := n
    obtain rfl : kind = .methodInvocation := by simpa [Node.isCall, Node.kind] using hncall
    rfl
  · rw [has, hbs]
    exact (hm.child hn).2.1
  · rw [has, hbns]
    exact stop_object_le hm hqualified hn hrole hbname (by decide)
  · rw [has, hbas]
    exact stop_object_le hm hqualified hn hrole hbargs (by decide)

theorem mem_outwardFrom {n : Node} {above : List Node} (h : Cursor.In tree ⟨n, above⟩) :
    ∀ l ∈ outwardFrom n above, Cursor.In tree l ∧ l.isCall = true := by
  induction above generalizing n with
  | nil =>
    intro l hl
    cases hl
  | cons m above ih =>
    intro l hl
    rw [outwardFrom] at hl
    split at hl
    case isFalse => cases hl
    case isTrue hm =>
      rw [Bool.and_eq_true] at hm
      rcases List.mem_cons.mp hl with rfl | hl
      · exact ⟨h.up.1, hm.1⟩
      · exact ih h.up.1 l hl

mutual

theorem mem_inwardFrom : ∀ {n : Node} {above : List Node}, Cursor.In tree ⟨n, above⟩ →
    ∀ l ∈ inwardFrom n above, Cursor.In tree l ∧ l.isCall = true
  | .mk kind role span children, above, h, l, hl => by
    rw [inwardFrom] at hl
    split at hl
    case isFalse => cases hl
    case isTrue hkind =>
      rcases List.mem_cons.mp hl with rfl | hl
      · exact ⟨h, hkind⟩
      · exact mem_inwardAmong (fun m hm => .down h hm) l hl

theorem mem_inwardAmong : ∀ {ns above : List Node}, (∀ n ∈ ns, Cursor.In tree ⟨n, above⟩) →
    ∀ l ∈ inwardAmong ns above, Cursor.In tree l ∧ l.isCall = true
  | [], _, _, l, hl => by cases hl
  | n :: ns, above, h, l, hl => by
    rw [inwardAmong] at hl
    split at hl
    · exact mem_inwardFrom (h n (.head ns)) l hl
    · exact mem_inwardAmong (fun m hm => h m (.tail n hm)) l hl

end

theorem rootCall_mem {c : Cursor} (hcall : c.isCall = true) : rootCall c ∈ inward c := by
  obtain ⟨⟨kind, role, span, children⟩, above⟩ := c
  have hkind : (kind == .methodInvocation) = true := hcall
  have hne : inward ⟨.mk kind role span children, above⟩ ≠ [] := by simp [inward, inwardFrom, hkind]
  rw [rootCall, List.getLastD_eq_getLast?, List.getLast?_eq_some_getLast hne]
  exact List.getLast_mem hne

theorem rootCall_in {c : Cursor} (h : Cursor.In tree c) (hcall : c.isCall = true) :
    Cursor.In tree (rootCall c) ∧ (rootCall c).isCall = true :=
  mem_inwardFrom h _ (rootCall_mem hcall)

theorem links_in {c : Cursor} (h : Cursor.In tree c) : ∀ l ∈ links c, Cursor.In tree l ∧ l.isCall = true := by
  intro l hl
  unfold links at hl
  split at hl
  case isFalse => cases hl
  case isTrue hcall =>
    have hroot := rootCall_in h hcall
    rcases List.mem_cons.mp hl with rfl | hl
    · exact hroot
    · rw [outward, if_pos hroot.2] at hl
      exact mem_outwardFrom hroot.1 l hl

section

variable {R : Call → Call → Prop}
  (hR : ∀ {n m : Node} {above : List Node} {a b : Call}, Cursor.In f.tree ⟨n, m :: above⟩ → n.role = some .object →
    readCall? f n = some a → readCall? f m = some b → R a b)
  (hread : ∀ {c : Cursor}, Cursor.In f.tree c → c.isCall = true → ∃ call, readCall? f c.node = some call)

include hR hread

theorem outwardFrom_isChain {n : Node} {above : List Node} {a : Call}
    (h : Cursor.In f.tree ⟨n, above⟩) (ha : readCall? f n = some a) :
    (a :: (outwardFrom n above).filterMap fun l => readCall? f l.node).IsChain R := by
  induction above generalizing n a with
  | nil => exact .singleton a
  | cons m above ih =>
    rw [outwardFrom]
    split
    case isFalse => exact .singleton a
    case isTrue hm =>
      rw [Bool.and_eq_true, beq_iff_eq] at hm
      obtain ⟨b, hb⟩ := hread h.up.1 hm.1
      rw [List.filterMap_cons, hb]
      exact .cons_cons (hR h hm.2 ha hb) (ih h.up.1 hb)

theorem chainOf_isChain {c : Cursor} (h : Cursor.In f.tree c) : (chainOf f c).calls.IsChain R := by
  unfold chainOf links
  cases hcall : c.isCall with
  | false => exact .nil
  | true =>
    have hroot := rootCall_in h hcall
    obtain ⟨a, ha⟩ := hread hroot.1 hroot.2
    simp only [if_true, List.filterMap_cons, ha, outward, hroot.2]
    exact outwardFrom_isChain hR hread hroot.1 ha

end

theorem chainOf_follows (hf : f.Sound) {c : Cursor} (h : Cursor.In f.tree c) :
    (chainOf f c).calls.IsChain Call.Follows :=
  chainOf_isChain (fun hin hrole ha hb => follows_of_object (hin.up.1.placed hf.placed).wellFormed
    (hin.up.1.all hf.formed).self.qualified hin.up.2 hrole ha hb) (exists_readCall?_of_in hf) h

end MockDialect.Chain
