import MockDialect.Chain.Call
import MockDialect.Chain.Links

namespace MockDialect

open Java Source Text

/-- The calls of a chain; each is the qualifier of the next. -/
structure Chain where
  calls : List Chain.Call

namespace Chain

def length (c : Chain) : Nat := c.calls.length

def first? (c : Chain) : Option Call := c.calls.head?

def get? (c : Chain) (index : Nat) : Option Call := c.calls[index]?

def span (c : Chain) : Span := (c.calls.getLast?.map (·.span)).getD ⟨0, 0⟩

def names (c : Chain) : List String := c.calls.map (·.name)

def chainOf (f : File) (c : Cursor) : Chain := ⟨(links c).filterMap fun l => readCall? f l.node⟩

def chainOfStatement? (f : File) (statement : Cursor) : Option Chain :=
  match statement.children.find? (·.kind != .token) with
  | some expression => if expression.isCall then some (chainOf f expression) else none
  | none => none

end Chain

end MockDialect
