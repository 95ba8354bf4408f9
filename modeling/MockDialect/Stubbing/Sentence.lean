import MockDialect.Chain.Chain
import MockDialect.Recognition.Flaw
import MockDialect.Stubbing.Dialect

namespace MockDialect.Stubbing

open Api Chain Recognition

def isSingleCall : List Arg → Bool
  | [a] => a.call?.isSome
  | _ => false

namespace Dialect

def carries (d : Dialect) (receiver : Receiver) : Bool :=
  receiver == .object d.carrier || (d.order == .actionFirst && receiver == .entry d.entryClass)

def isEntry (d : Dialect) (call : Call) : Bool :=
  match d.order with
  | .mockFirst => call.name == d.entryName && call.receiver == .entry d.entryClass && isSingleCall call.args
  | .actionFirst => call.name == d.entryName && call.receiver == .object d.carrier && call.args.length == 1

def isSetter (d : Dialect) (call : Call) : Bool := (d.setterOf? call.name).isSome && d.carries call.receiver

def begins (d : Dialect) (chain : Chain) : Bool :=
  match chain.first? with
  | none => false
  | some call =>
    match d.order with
    | .mockFirst => d.isEntry call
    | .actionFirst => call.receiver == .entry d.entryClass && (d.setterOf? call.name).isSome

/-- The calls from the entry call on, for a dialect with the action first. -/
def fromEntry (d : Dialect) (chain : Chain) : List Call := chain.calls.dropWhile (!d.isEntry ·)

def flaw? (d : Dialect) (chain : Chain) : Option Flaw :=
  match d.order with
  | .mockFirst => if chain.length < 2 then some .nothingChained else none
  | .actionFirst =>
    if chain.length < 3 then some .tooShort
    else
      match chain.get? (chain.length - 2) with
      | none => some .tooShort
      | some entry =>
        if !d.isEntry entry then some .entryMisplaced
        else if !entry.args.all (·.isReference) then some .mockNotReference
        else none

def isValid (d : Dialect) (chain : Chain) : Bool := d.begins chain && (d.flaw? chain).isNone

def setterStart (d : Dialect) (chain : Chain) : Nat :=
  match d.order with
  | .mockFirst => min 1 chain.length
  | .actionFirst => 0

def setterCalls (d : Dialect) (chain : Chain) : List Call :=
  match d.order with
  | .mockFirst => chain.calls.drop 1
  | .actionFirst => chain.calls.takeWhile (!d.isEntry ·)

def stubbedCall? (d : Dialect) (chain : Chain) : Option Call :=
  match d.order with
  | .mockFirst => (chain.first?.bind (·.args.head?)).bind (·.call?)
  | .actionFirst => (d.fromEntry chain)[1]?

def stubbedMock? (d : Dialect) (chain : Chain) : Option String :=
  match d.order with
  | .mockFirst => (d.stubbedCall? chain).bind (·.qualifierText?)
  | .actionFirst => (d.fromEntry chain).head?.bind (·.argText? 0)

end Dialect

/-- Whether a chain stubs through a `MockedStatic`, as in `mocked.when(() -> Util.load())`. Such a chain
is of no dialect, but its setters are those of `mockitoWhen`. -/
def isMockedStaticStubbing (chain : Chain) : Bool :=
  match chain.first? with
  | none => false
  | some call =>
    call.name == "when" && call.receiver == .object .mockedStatic &&
      match call.args with
      | [a] => a.isFunctional
      | _ => false

end MockDialect.Stubbing
