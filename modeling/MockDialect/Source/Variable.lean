import MockDialect.Api.Receiver
import MockDialect.Source.Imports

namespace MockDialect.Source

open Api Text

inductive VariableKind where
  | local | field | parameter | resource
  deriving DecidableEq

structure Variable where
  name : String
  kind : VariableKind
  declaredType : String
  apiType : Option ApiType
  mockedClass : Option String
  initializer : Option Span
  scope : Span
  declaredAt : Nat

namespace Variable

def visibleAt (v : Variable) (offset : Nat) : Bool :=
  v.scope.start ≤ offset && offset ≤ v.scope.stop && (v.kind == .field || v.declaredAt ≤ offset)

def narrower (best : Option Variable) (v : Variable) : Option Variable :=
  match best with
  | none => some v
  | some b => if v.scope.length < b.scope.length then some v else some b

def lookup? (declared : List Variable) (name : String) (offset : Nat) : Option Variable :=
  (declared.filter fun v => v.name == name && v.visibleAt offset).foldl narrower none

def field? (declared : List Variable) (name : String) : Option Variable :=
  declared.find? fun v => v.kind == .field && v.name == name

end Variable

/-- The type of the mocking library that a declared type names; type arguments do not matter. -/
def declaredApiType? (imports : Imports) (declaredType : String) : Option ApiType :=
  let base := trim (upTo '<' declaredType)
  (ApiType.declarable.find? fun (qualified, _) => imports.resolves base qualified).map Prod.snd

end MockDialect.Source
