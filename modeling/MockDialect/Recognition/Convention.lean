import MockDialect.Recognition.Dialect
import MockDialect.Text.Lowercase

namespace MockDialect.Recognition

open Api Chain Source Text

inductive Convention where
  | mockito | bddMockito
  deriving DecidableEq

namespace Convention

def name : Convention → String
  | mockito => "mockito"
  | bddMockito => "bddMockito"

def classes : Convention → String
  | mockito => "org.mockito.Mockito / org.mockito.InOrder"
  | bddMockito => "org.mockito.BDDMockito"

def ofName? (text : String) : Option Convention :=
  let wanted := lower text
  if wanted = "mockito" then some mockito
  else if wanted = "bddmockito" || wanted = "bdd" then some bddMockito
  else none

end Convention

/-- The convention that is enforced, if any. -/
structure Policy where
  enforced : Option Convention := none
  deriving DecidableEq

def Policy.allows (policy : Policy) : Family → Bool
  | .mockito => policy.enforced != some .bddMockito
  | .bdd => policy.enforced != some .mockito
  | .neutral => true

def mockitoActions : List String :=
  ["when", "doReturn", "doThrow", "doAnswer", "doCallRealMethod", "doNothing", "verify",
   "verifyNoMoreInteractions", "verifyNoInteractions", "verifyZeroInteractions"]

def Convention.forbids : Convention → Call → Bool
  | mockito, call => call.receiver == .entry .bddMockito
  | bddMockito, call =>
    (call.receiver == .entry .mockito && mockitoActions.contains call.name) ||
      Verification.Dialect.inOrderVerify.isEntry call

def Convention.isViolatedBy (convention : Convention) (chain : Chain) : Bool :=
  chain.calls.any convention.forbids

structure Violation where
  line : Nat
  column : Nat
  method : String
  span : Span
  message : String

def violationOf (f : File) (convention : Convention) (call : Call) : Violation where
  line := lineOf f.text call.nameSpan.start
  column := columnOf f.text call.nameSpan.start
  method := call.name
  span := call.nameSpan
  message := "Stubbing and verification must be performed via " ++ convention.classes

/-- Every call of a file that a convention rules out. A chain's last call comes first, since it encloses
the others. -/
def check (f : File) (convention : Convention) : List Violation :=
  ((f.cursors.filterMap fun c => readCall? f c.node).filter convention.forbids).map
    (violationOf f convention)

end MockDialect.Recognition
