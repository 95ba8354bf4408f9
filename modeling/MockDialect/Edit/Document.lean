import MockDialect.Edit.Plan

namespace MockDialect.Edit

open Text

structure Document where
  text : String
  deriving DecidableEq

namespace Document

def revision (d : Document) : UInt64 := Fingerprint.ofText d.text

/-- Try a plan: the answer to it, and the document afterwards. -/
def apply (d : Document) (plan : Plan) : Except EditError Unit × Document :=
  match plan.apply d.text with
  | .ok result => (.ok (), ⟨result⟩)
  | .error error => (.error error, d)

end Document

end MockDialect.Edit
