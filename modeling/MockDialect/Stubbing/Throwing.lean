import MockDialect.Stubbing.Sentence

namespace MockDialect.Stubbing

open Chain

namespace Dialect

def isThrow (d : Dialect) (call : Call) : Bool :=
  call.name == d.throwMethod && !call.args.isEmpty && d.carries call.receiver

def throwsClasses (d : Dialect) (call : Call) : Bool := d.isThrow call && call.args.all (·.isClassLiteral)

def throwsInstances (d : Dialect) (call : Call) : Bool :=
  d.isThrow call && !call.args.any (·.isClassLiteral)

end Dialect

/-- A change of form of the arguments of a throwing setter. -/
inductive ThrowForm where
  | keep
  | toClasses
  | toInstances
  deriving DecidableEq

namespace ThrowForm

def all : List ThrowForm := [keep, toClasses, toInstances]

def name : ThrowForm → String
  | keep => "none"
  | toClasses => "classes"
  | toInstances => "throwables"

def convert (form : ThrowForm) (a : Arg) : String :=
  match form, a.kind with
  | toClasses, .newInstance typeName _ => typeName ++ ".class"
  | toInstances, .classLiteral typeName => "new " ++ typeName ++ "()"
  | _, _ => a.text

end ThrowForm

def isPlainInstance (a : Arg) : Bool :=
  match a.kind with
  | .newInstance _ hasArguments => !hasArguments
  | _ => false

/-- The change that turns a throwing setter into the other form; none if some argument has no
counterpart. -/
def Dialect.throwToggle? (d : Dialect) (call : Call) : Option ThrowForm :=
  if !d.isThrow call then none
  else if call.args.all (·.isClassLiteral) then some .toInstances
  else if call.args.all isPlainInstance then some .toClasses
  else none

end MockDialect.Stubbing
