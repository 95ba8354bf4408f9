import MockDialect.Api.EntryClass
import MockDialect.Text.Dotted

namespace MockDialect.Api

open Text (startsWith)

inductive ApiType where
  | ongoingStubbing | bddOngoingStubbing | stubber | bddStubber | bddThen | inOrder | mockedStatic
  | verificationMode | mockSettings
  deriving DecidableEq

namespace ApiType

def all : List ApiType :=
  [ongoingStubbing, bddOngoingStubbing, stubber, bddStubber, bddThen, inOrder, mockedStatic,
   verificationMode, mockSettings]

def simpleName : ApiType → String
  | ongoingStubbing => "OngoingStubbing"
  | bddOngoingStubbing => "BDDMyOngoingStubbing"
  | stubber => "Stubber"
  | bddStubber => "BDDStubber"
  | bddThen => "Then"
  | inOrder => "InOrder"
  | mockedStatic => "MockedStatic"
  | verificationMode => "VerificationMode"
  | mockSettings => "MockSettings"

/-- Types that a variable can be declared with, by qualified name. -/
def declarable : List (String × ApiType) :=
  [("org.mockito.InOrder", inOrder),
   ("org.mockito.MockedStatic", mockedStatic),
   ("org.mockito.verification.VerificationMode", verificationMode),
   ("org.mockito.MockSettings", mockSettings)]

end ApiType

def verificationModes : List String :=
  ["times", "never", "atLeast", "atLeastOnce", "atMost", "only", "calls", "timeout", "after"]

def settingsMethods : List String :=
  ["name", "lenient", "strictness", "mockMaker", "defaultAnswer", "serializable", "stubOnly",
   "extraInterfaces", "spiedInstance", "verboseLogging", "invocationListeners", "useConstructor",
   "outerInstance", "withoutAnnotations"]

def staticResult : EntryClass → String → Option ApiType
  | .mockito, method =>
    if method = "when" then some .ongoingStubbing
    else if ["doReturn", "doThrow", "doAnswer", "doCallRealMethod", "doNothing"].contains method then
      some .stubber
    else if method = "inOrder" then some .inOrder
    else if method = "mockStatic" then some .mockedStatic
    else if method = "withSettings" then some .mockSettings
    else if verificationModes.contains method then some .verificationMode
    else none
  | .bddMockito, method =>
    if method = "given" then some .bddOngoingStubbing
    else if method = "then" then some .bddThen
    else if startsWith method "will" then some .bddStubber
    else none

def methodResult : ApiType → String → Option ApiType
  | .ongoingStubbing, method =>
    if ["then", "thenReturn", "thenThrow", "thenAnswer", "thenCallRealMethod"].contains method then
      some .ongoingStubbing
    else none
  | .bddOngoingStubbing, method =>
    if ["will", "willReturn", "willThrow", "willAnswer", "willCallRealMethod"].contains method then
      some .bddOngoingStubbing
    else none
  | .stubber, method => if startsWith method "do" then some .stubber else none
  | .bddStubber, method => if startsWith method "will" then some .bddStubber else none
  | .mockSettings, method => if settingsMethods.contains method then some .mockSettings else none
  | .verificationMode, method => if method = "description" then some .verificationMode else none
  | .mockedStatic, method => if method = "when" then some .ongoingStubbing else none
  | .bddThen, _ => none
  | .inOrder, _ => none

/-- What a call is made on. -/
inductive Receiver where
  | entry (cls : EntryClass)
  | object (type : ApiType)
  | unknown
  deriving DecidableEq

def Receiver.result : Receiver → String → Option ApiType
  | entry cls, method => staticResult cls method
  | object type, method => methodResult type method
  | unknown, _ => none

end MockDialect.Api
