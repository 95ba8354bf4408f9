import MockDialect.Edit.Plan
import MockDialect.Source.File

namespace MockDialect.Creation

open Edit Java Source Text

def blankIn (text : List Char) (span : Span) : Bool := allBlank (slice text span).toList

def indentAt (text : List Char) (offset : Nat) : String :=
  let line := slice text ⟨lineStart text offset, width text⟩
  String.ofList (line.toList.takeWhile fun c => c == ' ' || c == '\t')

def wholeLines (text : List Char) (span : Span) : Span :=
  let start := lineStart text span.start
  let stop := nextLineStart text span.stop
  if blankIn text ⟨start, span.start⟩ && blankIn text ⟨span.stop, stop⟩ then ⟨start, stop⟩ else span

def withBlankLineAfter (text : List Char) (lines : Span) : Span :=
  let ends := breakEnds 0 text
  if ends.contains lines.stop then
    match ends.find? (lines.stop < ·) with
    | some next => if blankIn text ⟨lines.stop, next⟩ then ⟨lines.start, next⟩ else lines
    | none => lines
  else lines

def firstMemberLine? (text : List Char) (body : Node) : Option Node :=
  match body.namedChildren.head? with
  | some first => if body.span.start < lineStart text first.span.start then some first else none
  | none => none

/-- Put lines at the head of a body: before its first member, or right after the brace, one level deeper
than the line of the brace. `gap` follows the lines in the first case, `close` in the second. -/
def insertLines (text : List Char) (body : Node) (lines : List String) (gap close : String) : Edit :=
  match firstMemberLine? text body with
  | some first =>
    let indent := indentAt text first.span.start
    insert (lineStart text first.span.start)
      (String.join (lines.map fun line => indent ++ line ++ "\n") ++ gap)
  | none =>
    let indent := indentAt text body.span.start ++ "    "
    insert (body.span.start + 1) (String.join (lines.map fun line => "\n" ++ indent ++ line) ++ close)

def insertField (text : List Char) (body : Node) (marker declaration : String) : Edit :=
  insertLines text body [marker, declaration] "\n" "\n"

def insertStatement (text : List Char) (block : Node) (statement : String) : Edit :=
  insertLines text block [statement] "" ""

end MockDialect.Creation
