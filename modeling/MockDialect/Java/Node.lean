import MockDialect.Java.Kind
import MockDialect.Text.Span

namespace MockDialect.Java

open Text (Span)

/-- A syntax node: its kind, its role in the parent, its range and its children in source order. -/
inductive Node where
  | mk (kind : Kind) (role : Option Role) (span : Span) (children : List Node)

namespace Node

mutual

def decEq : (m n : Node) → Decidable (m = n)
  | mk k r s cs, mk k' r' s' cs' =>
    have := decEqAll cs cs'
    decidable_of_iff (k = k' ∧ r = r' ∧ s = s' ∧ cs = cs') (by rw [mk.injEq])

def decEqAll : (ms ns : List Node) → Decidable (ms = ns)
  | [], [] => .isTrue rfl
  | [], _ :: _ => .isFalse nofun
  | _ :: _, [] => .isFalse nofun
  | m :: ms, n :: ns =>
    have := decEq m n
    have := decEqAll ms ns
    decidable_of_iff (m = n ∧ ms = ns) (by rw [List.cons.injEq])

end

instance : DecidableEq Node := decEq

def kind : Node → Kind
  | mk k _ _ _ => k

def role : Node → Option Role
  | mk _ r _ _ => r

def span : Node → Span
  | mk _ _ s _ => s

def children : Node → List Node
  | mk _ _ _ cs => cs

/-- A node without children. -/
def leaf (kind : Kind) (span : Span) : Node := mk kind none span []

def withRole (r : Role) : Node → Node
  | mk k _ s cs => mk k (some r) s cs

def isComment (n : Node) : Bool := n.kind.isComment

def isCall (n : Node) : Bool := n.kind == .methodInvocation

def child? (n : Node) (r : Role) : Option Node := n.children.find? (·.role == some r)

def childrenWith (n : Node) (r : Role) : List Node := n.children.filter (·.role == some r)

def childOfKind? (n : Node) (k : Kind) : Option Node := n.children.find? (·.kind == k)

/-- Children that are no punctuation; comments are among them. -/
def namedChildren (n : Node) : List Node := n.children.filter (·.kind != .token)

def codeChildren (n : Node) : List Node := n.namedChildren.filter (!·.isComment)

/-- Ranges nest and follow one another: every child lies in its parent and ends before the next begins. -/
inductive WellFormed : Node → Prop where
  | mk {k : Kind} {r : Option Role} {s : Span} {cs : List Node}
      (ordered : s.start ≤ s.stop)
      (inside : ∀ c ∈ cs, s.contains c.span = true)
      (apart : cs.Pairwise fun a b => a.span.stop ≤ b.span.start)
      (below : ∀ c ∈ cs, WellFormed c) : WellFormed (mk k r s cs)

@[simp] theorem children_mk (k : Kind) (r : Option Role) (s : Span) (cs : List Node) :
    (mk k r s cs).children = cs := rfl

theorem mem_children_of_child? {n c : Node} {r : Role} (h : n.child? r = some c) : c ∈ n.children :=
  List.mem_of_find?_eq_some h

theorem role_of_child? {n c : Node} {r : Role} (h : n.child? r = some c) : c.role = some r := by
  simpa using List.find?_some h

end Node

end MockDialect.Java
