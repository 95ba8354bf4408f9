import MockDialect.Text.Fingerprint
import MockDialect.Text.Offset

namespace MockDialect

open Text

/-- Put a text in the place of a range; with an empty range this inserts. -/
structure Edit where
  span : Span
  replacement : String
  deriving DecidableEq

namespace Edit

def replace (span : Span) (replacement : String) : Edit := ⟨span, replacement⟩

def insert (offset : Nat) (text : String) : Edit := ⟨.point offset, text⟩

inductive EditError where
  | overlapping (first second : Nat)
  | outOfBounds (start stop length : Nat)
  | stale (expected found : UInt64)
  deriving DecidableEq

def EditError.message : EditError → String
  | overlapping first second =>
    "Overlapping edits at byte " ++ toString first ++ " and byte " ++ toString second
  | outOfBounds start stop length =>
    "Edit " ++ (Span.mk start stop).render ++ " is outside the document (length " ++ toString length ++ ")"
  | stale expected found =>
    "Document changed since the rewrite was planned (expected revision " ++ Fingerprint.hex expected ++
      ", found " ++ Fingerprint.hex found ++ ")"

def splice (length done : Nat) (rest : List Char) : List Edit → Except EditError (List Char)
  | [] => .ok rest
  | e :: edits =>
    if e.span.start < done then .error (.overlapping done e.span.start)
    else
      match split? (e.span.start - done) rest with
      | none => .error (.outOfBounds e.span.start e.span.stop length)
      | some (gap, after) =>
        if e.span.stop < e.span.start then .error (.outOfBounds e.span.start e.span.stop length)
        else
          match split? (e.span.stop - e.span.start) after with
          | none => .error (.outOfBounds e.span.start e.span.stop length)
          | some (_, remaining) =>
            match splice length e.span.stop remaining edits with
            | .ok result => .ok (gap ++ e.replacement.toList ++ result)
            | .error error => .error error

def applyEdits (text : List Char) (edits : List Edit) : Except EditError (List Char) :=
  splice (width text) 0 text edits

end Edit

end MockDialect
