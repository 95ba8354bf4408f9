import MockDialect.Conversion.Selection
import MockDialect.Settings.Reading

namespace MockDialect.Creation

open Api Chain Conversion Java Source Text

inductive CreationKind where
  | mock | spy
  deriving DecidableEq

namespace CreationKind

def method : CreationKind → String
  | mock => "mock"
  | spy => "spy"

def marker : CreationKind → String
  | mock => "Mock"
  | spy => "Spy"

def markerClass (kind : CreationKind) : String := "org.mockito." ++ kind.marker

def all : List CreationKind := [mock, spy]

/-- The kind that an annotation stands for, by its name with or without the package. -/
def ofMarker? (name : String) : Option CreationKind :=
  all.find? fun kind => name == kind.marker || name == kind.markerClass

def ofMethod? (name : String) : Option CreationKind := all.find? fun kind => name == kind.method

end CreationKind

structure CreationCall where
  place : Cursor
  call : Call
  kind : CreationKind

def creationCallOf? (f : File) (place : Cursor) : Option CreationCall :=
  match readCall? f place.node with
  | none => none
  | some call =>
    match CreationKind.ofMethod? call.name with
    | some kind => if call.receiver = .entry .mockito then some ⟨place, call, kind⟩ else none
    | none => none

def beginsIn (span : Span) (place : Cursor) : Bool :=
  span.start ≤ place.span.start && place.span.start < span.stop && span.start < place.span.stop

def creationCall? (f : File) : Selection → Option CreationCall
  | .caret offset => (callsAround (f.placeAt offset)).findSome? (creationCallOf? f)
  | .range span => (f.cursors.filter (beginsIn span)).findSome? (creationCallOf? f)

/-- The offset that is pointed at: the caret, or the first byte of a range that is not blank. -/
def selectedOffset (f : File) : Selection → Nat
  | .caret offset => offset
  | .range span => span.start + width ((f.spanText span).toList.takeWhile isBlank)

def rawType (type : String) : String := trim (upTo '<' type)

end MockDialect.Creation
