import MockDialect.Recognition.Convention
import MockDialect.Stubbing.Run
import MockDialect.Verification.Target

namespace MockDialect.Conversion

open Recognition Text

inductive Target where
  | stubbing (dialect : Stubbing.Dialect)
  | verification (target : Verification.Target)
  deriving DecidableEq

namespace Target

def all : List Target := Stubbing.Dialect.all.map stubbing ++ Verification.Target.all.map verification

def name : Target → String
  | stubbing d => d.name
  | verification t => t.name

def presentable : Target → String
  | stubbing d => d.presentable
  | verification t => t.presentable

def family : Target → Family
  | stubbing d => d.family
  | verification t => t.family

end Target

def targetsOf : Dialect → List Target
  | .stubbing d => d.targets.map .stubbing
  | .verification d => d.targets.map .verification

/-- A name that stands for nothing. -/
inductive UnknownName where
  | convention (text : String)
  | stubbing (text : String)
  | throwForm (text : String)
  | target (text : String)

def UnknownName.message : UnknownName → String
  | convention text => "Unknown convention '" ++ lower text ++ "'. Expected: mockito, bddMockito"
  | stubbing text => "Unknown stubbing approach '" ++ text ++ "'"
  | throwForm text => "Unknown type conversion '" ++ lower text ++ "'. Expected: none, classes, throwables"
  | target text => "Unknown conversion target '" ++ text ++ "'"

/-- The first of some values whose name is the given one in lower case. -/
def byName {α : Type} (values : List α) (name : α → String) (text : String) (unknown : UnknownName) :
    Except UnknownName α :=
  match values.find? fun a => name a == lower text with
  | some a => .ok a
  | none => .error unknown

def conventionNamed (text : String) : Except UnknownName Convention :=
  match Convention.ofName? text with
  | some c => .ok c
  | none => .error (.convention text)

def stubbingNamed (text : String) : Except UnknownName Stubbing.Dialect :=
  byName Stubbing.Dialect.all (·.name) text (.stubbing text)

def throwFormNamed (text : String) : Except UnknownName Stubbing.ThrowForm :=
  byName Stubbing.ThrowForm.all (·.name) text (.throwForm text)

def targetNamed (text : String) : Except UnknownName Target :=
  byName Target.all (·.name) text (.target text)

end MockDialect.Conversion
