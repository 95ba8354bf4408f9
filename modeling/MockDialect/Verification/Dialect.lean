import MockDialect.Chain.Chain
import MockDialect.Recognition.Family
import MockDialect.Recognition.Flaw

namespace MockDialect.Verification

open Api Chain Recognition

inductive Dialect where
  | mockitoVerify
  | thenShould
  | inOrderVerify
  | inOrderVerifyStatic
  | staticVerify
  deriving DecidableEq

/-- Whether a call is the second one of `then(mock).should()`. -/
def isShould (call : Call) : Bool :=
  call.name == "should" && call.receiver == .object .bddThen && call.args.length ≤ 2

namespace Dialect

def all : List Dialect := [mockitoVerify, thenShould, inOrderVerify, inOrderVerifyStatic, staticVerify]

def name : Dialect → String
  | mockitoVerify => "mockito-verify"
  | thenShould => "bddmockito-then-should"
  | inOrderVerify => "inorder-verify"
  | inOrderVerifyStatic => "inorder-verify-mocked-static"
  | staticVerify => "mocked-static-verify"

def presentable : Dialect → String
  | mockitoVerify => "Mockito.verify()"
  | thenShould => "BDDMockito.then().should()"
  | inOrderVerify => "InOrder.verify()"
  | inOrderVerifyStatic => "InOrder.verify(MockedStatic)"
  | staticVerify => "MockedStatic.verify()"

def family : Dialect → Family
  | mockitoVerify | inOrderVerify => .mockito
  | thenShould => .bdd
  | inOrderVerifyStatic | staticVerify => .neutral

/-- Whether a call is the first one of the dialect. Of the two `verify` methods of an `InOrder`, the one
for a `MockedStatic` is told by a `MockedStatic` in front, by a functional second argument or by a
third one. -/
def isEntry (d : Dialect) (call : Call) : Bool :=
  match d with
  | mockitoVerify =>
    call.name == "verify" && call.receiver == .entry .mockito &&
      1 ≤ call.args.length && call.args.length ≤ 2
  | thenShould => call.name == "then" && call.receiver == .entry .bddMockito && call.args.length == 1
  | inOrderVerify =>
    call.name == "verify" && call.receiver == .object .inOrder &&
      match call.args with
      | [mock] => mock.apiType != some .mockedStatic
      | [mock, mode] => mock.apiType != some .mockedStatic && !mode.isFunctional
      | _ => false
  | inOrderVerifyStatic =>
    call.name == "verify" && call.receiver == .object .inOrder &&
      match call.args with
      | [mocked, verification] => mocked.apiType == some .mockedStatic || verification.isFunctional
      | [_, _, _] => true
      | _ => false
  | staticVerify =>
    call.name == "verify" && call.receiver == .object .mockedStatic &&
      1 ≤ call.args.length && call.args.length ≤ 2

def begins (d : Dialect) (chain : Chain) : Bool :=
  match d, chain.calls with
  | _, [] => false
  | thenShould, [_] => false
  | thenShould, entry :: should :: _ => thenShould.isEntry entry && isShould should
  | _, entry :: _ => d.isEntry entry

def flaw? (d : Dialect) (chain : Chain) : Option Flaw :=
  match d with
  | mockitoVerify | inOrderVerify => if chain.length < 2 then some (.nothingVerified "verify") else none
  | thenShould => if chain.length < 3 then some (.nothingVerified "should") else none
  | inOrderVerifyStatic | staticVerify => none

def isValid (d : Dialect) (chain : Chain) : Bool := d.begins chain && (d.flaw? chain).isNone

def isOrdered (d : Dialect) (chain : Chain) : Bool :=
  match d with
  | mockitoVerify | staticVerify => false
  | inOrderVerify | inOrderVerifyStatic => true
  | thenShould =>
    match chain.get? 1 with
    | some should =>
      should.args.length == 2 || should.args.head?.any fun a => a.apiType == some .inOrder
    | none => false

def verifiedCall? (d : Dialect) (chain : Chain) : Option Call :=
  match d with
  | mockitoVerify | inOrderVerify => chain.get? 1
  | thenShould => chain.get? 2
  | inOrderVerifyStatic | staticVerify => none

def verifiedMock? (chain : Chain) : Option Arg := chain.first?.bind (·.args.head?)

end Dialect

end MockDialect.Verification
