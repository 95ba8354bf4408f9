import MockDialect.Conversion.Declaration
import MockDialect.Conversion.Selection

namespace MockDialect.Conversion

open Chain Edit Recognition Source
open Verification (Head)

structure Planned where
  edits : List Edit
  imports : List String

def inOrderClass : String := "org.mockito.InOrder"

def headOf (source : Verification.Dialect) (site : Site) : Except Rejection Head :=
  match source.head? site.chain with
  | some head => .ok head
  | none => .error (.invalid (.verification source) .headNotRecognized)

/-- A `then(mock).should()` may or may not have an `InOrder`: one that has can be given no other, and
chains that become `InOrder` verifications together have to agree on it. -/
def checkOrder (source : Verification.Dialect) (target : Verification.Target) (heads : List Head) :
    Except Rejection Unit :=
  match source, target with
  | .thenShould, .addInOrder =>
    if heads.any (·.inOrder.isSome) then .error (.invalid (.verification source) .alreadyOrdered) else .ok ()
  | .thenShould, .inOrderVerify =>
    let first := heads.head?.bind (·.inOrder)
    if heads.all (·.inOrder == first) then .ok () else .error .mixedInOrder
  | _, _ => .ok ()

def mockedClassOf (f : File) (site : Site) (head : Head) : Except Rejection String :=
  let reference := head.mockedStatic.getD ""
  match f.mockedClass? reference site.chain.span.start with
  | some cls => .ok cls
  | none => .error (.unresolvedMockedStatic reference)

def mockedClasses (f : File) (target : Verification.Target) (sites : List (Site × Head)) :
    Except Rejection (List String) :=
  if target = .inOrderVerifyStatic then sites.mapM fun (site, head) => mockedClassOf f site head
  else .ok []

/-- The edit that replaces the head of a site; `added` is the `InOrder` for a head that has none. -/
def replaceHead (source : Verification.Dialect) (target : Verification.Target) (added : Option String)
    (site : Site) (head : Head) : Except Rejection Edit :=
  match target.spell head (head.inOrder.or added), site.chain.get? (head.calls - 1) with
  | some text, some last => .ok (replace ⟨site.chain.span.start, last.span.stop⟩ text)
  | _, _ => .error (.invalid (.verification source) .headIncomplete)

def headImports (target : Verification.Target) : List String :=
  match target with
  | .mockitoVerify => [Api.EntryClass.mockito.qualifiedName]
  | .thenShould | .thenShouldInOrder | .addInOrder => [Api.EntryClass.bddMockito.qualifiedName]
  | .inOrderVerify | .inOrderVerifyStatic | .staticVerify => []

def addedInOrder (f : File) (target : Verification.Target) (base : String) (heads : List Head) :
    Option String :=
  if target.usesInOrder && heads.any (·.inOrder.isNone) then some (freshName f.identifiers base) else none

def convertVerification (f : File) (sites : List Site) (source : Verification.Dialect)
    (target : Verification.Target) (base : String) : Except Rejection Planned := do
  if !source.targets.contains target then
    throw (.notATarget (.verification source) (.verification target))
  let heads ← sites.mapM (headOf source)
  checkOrder source target heads
  let classes ← mockedClasses f target (sites.zip heads)
  let added := addedInOrder f target base heads
  let args := if classes.isEmpty then heads.filterMap (·.mock) else classes
  let declarations := match added, sites with
    | some name, first :: _ => [declareInOrder f first.statementStart name (unique args)]
    | _, _ => []
  let edits ← (sites.zip heads).mapM fun (site, head) => replaceHead source target added site head
  return {
    edits := declarations ++ edits
    imports := (if added.isSome then [inOrderClass, Api.EntryClass.mockito.qualifiedName] else []) ++
      headImports target }

end MockDialect.Conversion
