import MockDialect.Conversion.Rejection

namespace MockDialect.Conversion

open Chain Edit Recognition

structure Action where
  link : String
  method : String
  args : String

/-- What stands before a setter. A setter that was not chained on a call gets a plain dot. -/
def linkOf (call : Call) : String :=
  match call.qualifier with
  | some q => if q.kind = .call then call.link else "."
  | none => "."

def convertSetter (source target : Stubbing.Dialect) (call : Call) : Except Rejection Action :=
  match if source.isSetter call then source.setterOf? call.name else none with
  | none => .error (.invalid (.stubbing source) (.notStubbing call.name))
  | some setter =>
    match target.setterName setter with
    | none => .error (.unsupportedSetter call.name target)
    | some method => .ok ⟨linkOf call, method, call.argsText⟩

def onReference (call : Call) : Bool :=
  match call.qualifier with
  | some q => q.kind == .reference
  | none => false

def spellActions (actions : List Action) : String :=
  String.join (actions.map fun a => a.link ++ a.method ++ a.args)

def spellStubbing (d : Stubbing.Dialect) (actions : List Action) (mock tail : String) : String :=
  match d.order with
  | .mockFirst =>
    d.entryClass.simpleName ++ "." ++ d.entryName ++ "(" ++ mock ++ tail ++ ")" ++ spellActions actions
  | .actionFirst =>
    let actions := match actions with
      | [] => []
      | a :: rest => { a with link := "." } :: rest
    d.entryClass.simpleName ++ spellActions actions ++ "." ++ d.entryName ++ "(" ++ mock ++ ")" ++ tail

def convertStubbing (chain : Chain) (source target : Stubbing.Dialect) : Except Rejection Edit := do
  let invalid {α : Type} (flaw : Flaw) : Except Rejection α := .error (.invalid (.stubbing source) flaw)
  if source = target then throw (.notATarget (.stubbing source) (.stubbing target))
  if let some flaw := source.flaw? chain then invalid flaw
  let actions ← (source.setterCalls chain).mapM (convertSetter source target)
  if actions.isEmpty then invalid .noAction
  let some stubbed := source.stubbedCall? chain | invalid .noStubbedCall
  let some mock := source.stubbedMock? chain | invalid .noMock
  if source.order = .mockFirst ∧ target.order = .actionFirst ∧ !onReference stubbed then
    invalid .mockNotMovable
  return replace chain.span (spellStubbing target actions mock stubbed.tail)

end MockDialect.Conversion
