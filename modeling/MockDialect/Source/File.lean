import MockDialect.Java.Parse
import MockDialect.Order.Sorted
import MockDialect.Source.Declared
import MockDialect.Text.Fingerprint
import MockDialect.Text.Line

namespace MockDialect.Source

open Api Java Text

structure File where
  source : String
  text : List Char
  tree : Node
  broken : Bool
  imports : Imports
  declared : List Variable
  identifiers : List String

def identifiersOf (text : List Char) (tree : Node) : List String :=
  Order.sortNames (((Cursor.all tree).filter (·.kind == .identifier)).map fun c => slice text c.span)

def liesIn (span : Span) (c : Cursor) : Bool := c.kind == .expressionStatement && span.contains c.span

mutual

/-- The outermost expression statements in a range, without a look at what does not touch it. -/
def outermostStatements (span : Span) : Node → List Node → List Cursor
  | .mk kind role s children, above =>
    if s.stop ≤ span.start || span.stop ≤ s.start then []
    else if liesIn span ⟨.mk kind role s children, above⟩ then [⟨.mk kind role s children, above⟩]
    else outermostStatementsAmong span children (.mk kind role s children :: above)

def outermostStatementsAmong (span : Span) : List Node → List Node → List Cursor
  | [], _ => []
  | n :: ns, above => outermostStatements span n above ++ outermostStatementsAmong span ns above

end

namespace File

def ofTree (source : String) (text : List Char) (tree : Node) (broken : Bool) : File :=
  let imports := Imports.ofTree text tree
  { source := source
    text := text
    tree := tree
    broken := broken
    imports := imports
    declared := declaredVariables text imports tree
    identifiers := identifiersOf text tree }

def read (source : String) : File :=
  let text := source.toList
  match parse? text with
  | some tree => ofTree source text tree false
  | none => ofTree source text (.leaf .program ⟨0, width text⟩) true

def revision (f : File) : UInt64 := Fingerprint.ofText f.source

def names (f : File) : Names := ⟨f.text, f.imports, f.declared⟩

def spanText (f : File) (span : Span) : String := slice f.text span

def spell (f : File) (n : Node) : String := f.spanText n.span

def length (f : File) : Nat := width f.text

def cursors (f : File) : List Cursor := Cursor.all f.tree

def lookup? (f : File) (name : String) (offset : Nat) : Option Variable :=
  Variable.lookup? f.declared name offset

def placeAt (f : File) (offset : Nat) : Cursor := Cursor.innermost offset offset f.tree []

def callAt? (f : File) (offset : Nat) : Option Cursor := (f.placeAt offset).nearest? (·.isCall)

/-- The call that occupies exactly a range: of the places outward from the innermost one that covers it,
those that do not reach beyond it. -/
def callWithSpan? (f : File) (span : Span) : Option Cursor :=
  let start := Cursor.innermost span.start span.stop f.tree []
  ((Cursor.outward start.node start.above).takeWhile
    fun c => span.start ≤ c.span.start && c.span.stop ≤ span.stop).find?
    fun c => c.isCall && c.span == span

/-- Of the expression statements that the search finds in a range those with the parent of the first. -/
def statementsIn (f : File) (span : Span) : List Cursor :=
  let found := outermostStatements span f.tree []
  match found.head? with
  | none => []
  | some first => found.filter fun c => c.parent? = first.parent?

def mockedClass? (f : File) (reference : String) (offset : Nat) : Option String :=
  (f.lookup? (withoutThis reference) offset).bind (·.mockedClass)

end File

end MockDialect.Source
