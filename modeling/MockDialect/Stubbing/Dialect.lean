import MockDialect.Api.Receiver
import MockDialect.Recognition.Family

namespace MockDialect.Stubbing

open Api Recognition

/-- What a stubbed call is made to do. -/
inductive Setter where
  | returns
  | throws
  | answers
  | answersAlias
  | callsRealMethod
  | doesNothing
  deriving DecidableEq

def Setter.all : List Setter := [returns, throws, answers, answersAlias, callsRealMethod, doesNothing]

/-- Where the action stands relative to the mock. -/
inductive Order where
  | mockFirst | actionFirst
  deriving DecidableEq

inductive Dialect where
  | mockitoWhen | mockitoDo | bddGiven | bddWill
  deriving DecidableEq

namespace Dialect

def all : List Dialect := [mockitoWhen, mockitoDo, bddGiven, bddWill]

def name : Dialect → String
  | mockitoWhen => "mockito-when"
  | mockitoDo => "mockito-do-x"
  | bddGiven => "bddmockito-given"
  | bddWill => "bddmockito-will-x"

def presentable : Dialect → String
  | mockitoWhen => "Mockito.when()"
  | mockitoDo => "Mockito.doX()"
  | bddGiven => "BDDMockito.given()"
  | bddWill => "BDDMockito.willX()"

def order : Dialect → Order
  | mockitoWhen | bddGiven => .mockFirst
  | mockitoDo | bddWill => .actionFirst

def entryClass : Dialect → EntryClass
  | mockitoWhen | mockitoDo => .mockito
  | bddGiven | bddWill => .bddMockito

def entryName : Dialect → String
  | mockitoWhen | mockitoDo => "when"
  | bddGiven | bddWill => "given"

def carrier : Dialect → ApiType
  | mockitoWhen => .ongoingStubbing
  | mockitoDo => .stubber
  | bddGiven => .bddOngoingStubbing
  | bddWill => .bddStubber

def family (d : Dialect) : Family :=
  match d.entryClass with
  | .mockito => .mockito
  | .bddMockito => .bdd

def setterName : Dialect → Setter → Option String
  | mockitoWhen, .returns => some "thenReturn"
  | mockitoWhen, .throws => some "thenThrow"
  | mockitoWhen, .answers => some "thenAnswer"
  | mockitoWhen, .answersAlias => some "then"
  | mockitoWhen, .callsRealMethod => some "thenCallRealMethod"
  | mockitoWhen, .doesNothing => none
  | mockitoDo, .returns => some "doReturn"
  | mockitoDo, .throws => some "doThrow"
  | mockitoDo, .answers => some "doAnswer"
  | mockitoDo, .answersAlias => none
  | mockitoDo, .callsRealMethod => some "doCallRealMethod"
  | mockitoDo, .doesNothing => some "doNothing"
  | bddGiven, .doesNothing => none
  | bddWill, .doesNothing => some "willDoNothing"
  | _, .returns => some "willReturn"
  | _, .throws => some "willThrow"
  | _, .answers => some "willAnswer"
  | _, .answersAlias => some "will"
  | _, .callsRealMethod => some "willCallRealMethod"

def setterOf? (d : Dialect) (method : String) : Option Setter :=
  Setter.all.find? fun s => d.setterName s == some method

/-- The method that throws; every dialect has one. -/
def throwMethod (d : Dialect) : String := (d.setterName .throws).getD ""

def targets (d : Dialect) : List Dialect := all.filter (· != d)

theorem mem_targets_iff {d e : Dialect} : e ∈ d.targets ↔ e ≠ d := by
  cases d <;> cases e <;> decide

theorem setterOf?_setterName {d : Dialect} {s : Setter} {method : String}
    (h : d.setterName s = some method) : d.setterOf? method = some s := by
  cases d <;> cases s <;> simp only [setterName, Option.some.injEq, reduceCtorEq] at h <;>
    subst h <;> decide

end Dialect

end MockDialect.Stubbing
