import MockDialect.Order.Sorted
import MockDialect.Stubbing.Throwing

namespace MockDialect.Stubbing

open Chain

/-- Which forms of argument the calls of a throwing run take. -/
inductive Mixture where
  | classes
  | instances
  | mixed
  | mixedWithArguments
  deriving DecidableEq

namespace Mixture

def name : Mixture → String
  | classes => "classes"
  | instances => "throwables"
  | mixed => "mixed"
  | mixedWithArguments => "mixedWithThrowablesPreferred"

def all : List Mixture := [classes, instances, mixed, mixedWithArguments]

/-- The changes of form under which a run can be merged, the preferred one first. -/
def forms : Mixture → List ThrowForm
  | classes | instances => [.keep]
  | mixedWithArguments => [.toInstances]
  | mixed => [.toClasses, .toInstances]

end Mixture

/-- Neighbouring calls of one method. -/
structure Run where
  method : String
  indices : List Nat
  mixture : Option Mixture
  deriving DecidableEq

namespace Run

def foldable (r : Run) : List Nat := r.indices.drop 1

def forms (r : Run) : List ThrowForm :=
  match r.mixture with
  | some m => m.forms
  | none => [.keep]

end Run

def stretches {α : Type} (isMember : α → Bool) : Nat → List α → List (List Nat)
  | _, [] => []
  | i, x :: xs =>
    let rest := stretches isMember (i + 1) xs
    if isMember x then
      match rest with
      | (j :: js) :: more => if j = i + 1 then (i :: j :: js) :: more else [i] :: rest
      | _ => [i] :: rest
    else rest

def callsAt (chain : Chain) (indices : List Nat) : List Call := indices.filterMap chain.get?

def methodAt (chain : Chain) (indices : List Nat) : String :=
  match (indices.head?).bind chain.get? with
  | some call => call.name
  | none => ""

namespace Dialect

def runsOf (d : Dialect) (chain : Chain) (isMember : Call → Bool) : List (List Nat) :=
  (stretches isMember (d.setterStart chain) (d.setterCalls chain)).filter fun s => 1 < s.length

def mixtureOf (d : Dialect) (calls : List Call) : Mixture :=
  let instances := calls.filter d.throwsInstances
  if !calls.any d.throwsClasses then .instances
  else if instances.isEmpty then .classes
  else if (instances.flatMap (·.args)).any fun a => match a.kind with
      | .newInstance _ hasArguments => hasArguments
      | _ => false
  then .mixedWithArguments
  else .mixed

def throwRuns (d : Dialect) (chain : Chain) : List Run :=
  (d.runsOf chain d.isThrow).map fun indices =>
    ⟨methodAt chain indices, indices, some (d.mixtureOf (callsAt chain indices))⟩

def isReturn (d : Dialect) (call : Call) : Bool :=
  some call.name == d.setterName .returns && !call.args.isEmpty && d.isSetter call

def returnRuns (d : Dialect) (chain : Chain) : List Run :=
  (d.runsOf chain d.isReturn).map fun indices => ⟨methodAt chain indices, indices, none⟩

def foldableCalls (d : Dialect) (chain : Chain) : List Nat :=
  Order.sortBy (fun a b => decide (a ≤ b)) ((d.throwRuns chain ++ d.returnRuns chain).flatMap (·.foldable))

end Dialect

end MockDialect.Stubbing
