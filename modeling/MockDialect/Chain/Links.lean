import MockDialect.Java.Cursor

namespace MockDialect.Chain

open Java

def previous? (c : Cursor) : Option Cursor :=
  match c.child? .object with
  | some object => if object.isCall then some object else none
  | none => none

def next? (c : Cursor) : Option Cursor :=
  match c.parent? with
  | some parent => if parent.isCall && c.node.role == some .object then some parent else none
  | none => none

mutual

def inwardFrom : Node → List Node → List Cursor
  | .mk kind role span children, above =>
    if kind == .methodInvocation then
      ⟨.mk kind role span children, above⟩ :: inwardAmong children (.mk kind role span children :: above)
    else []

/-- The calls inward from the qualifier among the children of a call. -/
def inwardAmong : List Node → List Node → List Cursor
  | [], _ => []
  | n :: ns, above => if n.role == some .object then inwardFrom n above else inwardAmong ns above

end

def outwardFrom : Node → List Node → List Cursor
  | _, [] => []
  | n, parent :: above =>
    if parent.isCall && n.role == some .object then ⟨parent, above⟩ :: outwardFrom parent above else []

/-- A call and the calls it is chained on, the nearest first; nothing if it is no call. -/
def inward (c : Cursor) : List Cursor := inwardFrom c.node c.above

def outward (c : Cursor) : List Cursor := if c.isCall then outwardFrom c.node c.above else []

def rootCall (c : Cursor) : Cursor := (inward c).getLastD c

def outermostCall (c : Cursor) : Cursor := (outward c).getLastD c

def links (c : Cursor) : List Cursor :=
  let root := rootCall c
  if c.isCall then root :: outward root else []

def callsAround (c : Cursor) : List Cursor := (Cursor.outward c.node c.above).filter (·.isCall)

end MockDialect.Chain
