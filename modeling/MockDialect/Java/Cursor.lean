import MockDialect.Java.Node

namespace MockDialect.Java

open Text (Span)

/-- A node and the nodes above it. -/
structure Cursor where
  node : Node
  above : List Node
  deriving DecidableEq

namespace Cursor

def root (n : Node) : Cursor := ⟨n, []⟩

def kind (c : Cursor) : Kind := c.node.kind

def span (c : Cursor) : Span := c.node.span

def isCall (c : Cursor) : Bool := c.node.isCall

def parent? : Cursor → Option Cursor
  | ⟨_, []⟩ => none
  | ⟨_, n :: above⟩ => some ⟨n, above⟩

def children (c : Cursor) : List Cursor := c.node.children.map fun n => ⟨n, c.node :: c.above⟩

def child? (c : Cursor) (r : Role) : Option Cursor :=
  (c.node.child? r).map fun n => ⟨n, c.node :: c.above⟩

def outward : Node → List Node → List Cursor
  | n, [] => [⟨n, []⟩]
  | n, m :: above => ⟨n, m :: above⟩ :: outward m above

def nearest? (c : Cursor) (p : Cursor → Bool) : Option Cursor := (outward c.node c.above).find? p

def enclosing? (c : Cursor) (k : Kind) : Option Cursor := c.nearest? (·.kind == k)

def statement? (c : Cursor) : Option Cursor :=
  c.nearest? fun d => d.kind.isStatement || d.kind == .localVariableDeclaration

mutual

def preorder : Node → List Node → List Cursor
  | .mk k r s cs, above => ⟨.mk k r s cs, above⟩ :: preorderAll cs (.mk k r s cs :: above)

def preorderAll : List Node → List Node → List Cursor
  | [], _ => []
  | n :: ns, above => preorder n above ++ preorderAll ns above

end

def all (tree : Node) : List Cursor := preorder tree []

def covers (start stop : Nat) (n : Node) : Bool :=
  stop ≤ n.span.stop && start < n.span.stop && n.span.start ≤ start

mutual

/-- The innermost place that covers a range; the node itself if none of its children does. -/
def innermost (start stop : Nat) : Node → List Node → Cursor
  | .mk k r s cs, above => (innermostAmong start stop cs (.mk k r s cs :: above)).getD ⟨.mk k r s cs, above⟩

def innermostAmong (start stop : Nat) : List Node → List Node → Option Cursor
  | [], _ => none
  | n :: ns, above =>
    if covers start stop n then some (innermost start stop n above) else innermostAmong start stop ns above

end

/-- A cursor is in a tree when it is reached from the root by going down. -/
inductive In (tree : Node) : Cursor → Prop where
  | root : In tree ⟨tree, []⟩
  | down {n m : Node} {above : List Node} (up : In tree ⟨m, above⟩) (mem : n ∈ m.children) :
      In tree ⟨n, m :: above⟩

end Cursor

end MockDialect.Java
