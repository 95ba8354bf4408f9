import MockDialect.Verification.Head

namespace MockDialect.Verification

open Recognition

inductive Target where
  | mockitoVerify
  | thenShould
  | thenShouldInOrder
  | addInOrder
  | inOrderVerify
  | inOrderVerifyStatic
  | staticVerify
  deriving DecidableEq

namespace Target

def all : List Target :=
  [mockitoVerify, thenShould, thenShouldInOrder, addInOrder, inOrderVerify, inOrderVerifyStatic, staticVerify]

def name : Target → String
  | mockitoVerify => "mockito-verify"
  | thenShould => "bddmockito-then-should"
  | thenShouldInOrder => "bddmockito-then-should-inorder"
  | addInOrder => "bddmockito-add-inorder"
  | inOrderVerify => "inorder-verify"
  | inOrderVerifyStatic => "inorder-verify-mocked-static"
  | staticVerify => "mocked-static-verify"

def dialect : Target → Dialect
  | mockitoVerify => .mockitoVerify
  | thenShould | thenShouldInOrder | addInOrder => .thenShould
  | inOrderVerify => .inOrderVerify
  | inOrderVerifyStatic => .inOrderVerifyStatic
  | staticVerify => .staticVerify

def presentable : Target → String
  | thenShouldInOrder | addInOrder => "BDDMockito.then().should(InOrder)"
  | t => t.dialect.presentable

def family (t : Target) : Family := t.dialect.family

def usesInOrder : Target → Bool
  | thenShouldInOrder | addInOrder | inOrderVerify | inOrderVerifyStatic => true
  | mockitoVerify | thenShould | staticVerify => false

/-- The new head, given the `InOrder` to verify against; none if a piece it needs is missing. -/
def spell (t : Target) (head : Head) (inOrder : Option String) : Option String :=
  let withMode (first : String) := match head.mode with
    | some mode => first ++ ", " ++ mode
    | none => first
  match t with
  | mockitoVerify => head.mock.map fun mock => "Mockito.verify(" ++ withMode mock ++ ")"
  | thenShould =>
    head.mock.map fun mock => "BDDMockito.then(" ++ mock ++ ").should(" ++ head.mode.getD "" ++ ")"
  | thenShouldInOrder | addInOrder =>
    match head.mock, inOrder with
    | some mock, some order => some ("BDDMockito.then(" ++ mock ++ ").should(" ++ withMode order ++ ")")
    | _, _ => none
  | inOrderVerify =>
    match inOrder, head.mock with
    | some order, some mock => some (order ++ ".verify(" ++ withMode mock ++ ")")
    | _, _ => none
  | inOrderVerifyStatic =>
    match inOrder, head.mockedStatic, head.verification with
    | some order, some mocked, some verification =>
      some (order ++ ".verify(" ++ mocked ++ ", " ++ withMode verification ++ ")")
    | _, _, _ => none
  | staticVerify =>
    match head.mockedStatic, head.verification with
    | some mocked, some verification => some (mocked ++ ".verify(" ++ withMode verification ++ ")")
    | _, _ => none

end Target

/-- The targets of a dialect, in the order in which they are offered. -/
def Dialect.targets : Dialect → List Target
  | mockitoVerify => [.inOrderVerify, .thenShould, .thenShouldInOrder]
  | thenShould => [.mockitoVerify, .inOrderVerify, .addInOrder]
  | inOrderVerify => [.mockitoVerify, .thenShould, .thenShouldInOrder]
  | inOrderVerifyStatic => [.staticVerify]
  | staticVerify => [.inOrderVerifyStatic]

end MockDialect.Verification
