import MockDialect.Edit.Edit
import MockDialect.Order.Sorted

namespace MockDialect.Edit

open Text

structure Plan where
  revision : UInt64
  edits : List Edit
  summary : String
  deriving DecidableEq

/-- Whether two edits, in order of their ranges, touch the same bytes. Insertions never do. -/
def collide (a b : Edit) : Bool :=
  b.span.start < a.span.stop || (!a.span.isEmpty && a.span.start == b.span.start)

def collision? : List Edit → Option (Nat × Nat)
  | a :: b :: rest => if collide a b then some (a.span.start, b.span.start) else collision? (b :: rest)
  | _ => none

def sortEdits (edits : List Edit) : List Edit :=
  Order.sortBy (fun a b => !b.span.isBefore a.span) edits

namespace Plan

def make (revision : UInt64) (edits : List Edit) (summary : String) : Except EditError Plan :=
  let sorted := sortEdits edits
  match collision? sorted with
  | some (first, second) => .error (.overlapping first second)
  | none => .ok ⟨revision, sorted, summary⟩

def preview (plan : Plan) (text : String) : Except EditError String :=
  match applyEdits text.toList plan.edits with
  | .ok result => .ok (String.ofList result)
  | .error error => .error error

def apply (plan : Plan) (text : String) : Except EditError String :=
  let found := Fingerprint.ofText text
  if found = plan.revision then plan.preview text else .error (.stale plan.revision found)

end Plan

end MockDialect.Edit
