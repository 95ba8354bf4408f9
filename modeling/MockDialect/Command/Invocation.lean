import MockDialect.Command.Switch
import MockDialect.Conversion.Target

namespace MockDialect.Command

open Conversion Recognition
open Stubbing (ThrowForm)

/-- Where in which file to look, and how to configure the run. -/
structure Place where
  file : String
  line : Nat
  endLine : Option Nat
  column : Option Nat
  convention : Option Convention
  config : Option String
  json : Bool

structure SettingsRequest where
  marker : Option String
  call : Option String
  type : Option String
  json : Bool

/-- Which files are to be checked against which convention. -/
structure CheckRequest where
  directory : String
  extension : String
  filter : Option String
  convention : Option Convention
  config : Option String
  versionControl : Bool
  json : Bool

inductive Invocation where
  | classify (place : Place)
  | targets (place : Place) (inOrderName : Option String)
  | convert (place : Place) (target : Target) (inOrderName : Option String) (write : Bool)
  | mergeThrows (place : Place) (form : Option ThrowForm) (write : Bool)
  | throwArgs (place : Place) (write : Bool)
  | toField (place : Place) (write : Bool)
  | toCall (place : Place) (method : String) (write : Bool)
  | expandMock (place : Place) (write : Bool)
  | settings (request : SettingsRequest)
  | check (request : CheckRequest)

def globalSwitches : List Switch := [⟨"log-level", none, true⟩, ⟨"log-format", none, true⟩]

def placeSwitches : List Switch :=
  [⟨"line", some 'l', true⟩, ⟨"end-line", none, true⟩, ⟨"column", none, true⟩, ⟨"convention", none, true⟩,
   ⟨"config", none, true⟩, ⟨"json", none, false⟩]

def writeSwitch : Switch := ⟨"write", some 'w', false⟩

def switchesOf? (command : String) : Option (List Switch) :=
  match command with
  | "classify" => some placeSwitches
  | "targets" => some (placeSwitches ++ [⟨"in-order-name", none, true⟩])
  | "convert" =>
    some (placeSwitches ++ [⟨"to", none, true⟩, ⟨"in-order-name", none, true⟩, writeSwitch])
  | "merge-throws" => some (placeSwitches ++ [⟨"conversion", none, true⟩, writeSwitch])
  | "throw-args" => some (placeSwitches ++ [writeSwitch])
  | "to-field" => some (placeSwitches ++ [writeSwitch])
  | "to-call" => some (placeSwitches ++ [⟨"method", none, true⟩, writeSwitch])
  | "expand-mock" => some (placeSwitches ++ [writeSwitch])
  | "settings" =>
    some [⟨"annotation", none, true⟩, ⟨"call", none, true⟩, ⟨"type", none, true⟩, ⟨"json", none, false⟩]
  | "check" =>
    some [⟨"dir", some 'd', true⟩, ⟨"ext", some 'e', true⟩, ⟨"filter", some 'f', true⟩,
      ⟨"convention", none, true⟩, ⟨"config", none, true⟩, ⟨"threads", some 't', true⟩,
      ⟨"no-ignore", none, false⟩, ⟨"json", none, false⟩]
  | _ => none

/-- A number that fits a machine word; a plus sign may stand before it. -/
def count? (text : String) : Option Nat :=
  let digits := match text.toList with
    | '+' :: rest => rest
    | cs => cs
  if digits.isEmpty || !digits.all Char.isDigit then none
  else
    let n := digits.foldl (fun n c => 10 * n + (c.toNat - 48)) 0
    if n < Nat.pow 2 64 then some n else none

def nonempty? (text : String) : Option String := if text.isEmpty then none else some text

def optional {α : Type} (g : Given) (name : String) (read : String → Option α) :
    Except Stop (Option α) :=
  match g.value? name with
  | none => .ok none
  | some text =>
    match read text with
    | some value => .ok (some value)
    | none => .error .misuse

def required {α : Type} (g : Given) (name : String) (read : String → Option α) : Except Stop α := do
  match ← optional g name read with
  | some value => .ok value
  | none => .error .misuse

def readConvention (text : String) : Option Convention := (conventionNamed text).toOption

def readTarget (text : String) : Option Target := (targetNamed text).toOption

def readForm (text : String) : Option ThrowForm := (throwFormNamed text).toOption

def checkGlobal (g : Given) : Except Stop Unit := do
  let _ ← optional g "log-format" fun text => if text == "text" || text == "json" then some text else none

def readPlace (g : Given) : Except Stop Place := do
  let [file] := g.words | throw .misuse
  let some file := nonempty? file | throw .misuse
  return {
    file
    line := ← required g "line" count?
    endLine := ← optional g "end-line" count?
    column := ← optional g "column" count?
    convention := ← optional g "convention" readConvention
    config := ← optional g "config" nonempty?
    json := g.has "json" }

def readSettings (g : Given) : Except Stop SettingsRequest := do
  if !g.words.isEmpty || (g.has "annotation" && g.has "call") then throw .misuse
  return {
    marker := g.value? "annotation"
    call := g.value? "call"
    type := g.value? "type"
    json := g.has "json" }

def readCheck (g : Given) : Except Stop CheckRequest := do
  if !g.words.isEmpty then throw .misuse
  let _ ← optional g "threads" count?
  return {
    directory := (g.value? "dir").getD "."
    extension := (g.value? "ext").getD "java"
    filter := g.value? "filter"
    convention := ← optional g "convention" readConvention
    config := ← optional g "config" nonempty?
    versionControl := !g.has "no-ignore"
    json := g.has "json" }

def readCommand (command : String) (g : Given) : Except Stop Invocation := do
  let write := g.has "write"
  match command with
  | "settings" => return .settings (← readSettings g)
  | "check" => return .check (← readCheck g)
  | _ =>
    let place ← readPlace g
    match command with
    | "classify" => return .classify place
    | "targets" => return .targets place (g.value? "in-order-name")
    | "convert" =>
      return .convert place (← required g "to" readTarget) (g.value? "in-order-name") write
    | "merge-throws" => return .mergeThrows place (← optional g "conversion" readForm) write
    | "throw-args" => return .throwArgs place write
    | "to-field" => return .toField place write
    | "to-call" => return .toCall place (← required g "method" some) write
    | "expand-mock" => return .expandMock place write
    | _ => throw .misuse

/-- A command line asks for one command; switches for all commands may stand on both sides of its name. -/
def Invocation.parse (arguments : List String) : Except Stop Invocation := do
  let top := ⟨"version", some 'V', false⟩ :: globalSwitches
  let (before, rest) ← scan top true {} none arguments
  checkGlobal before
  if before.has "version" then throw .help
  match rest with
  | [] => throw .misuse
  | command :: arguments =>
    if command == "help" then throw .help
    let some switches := switchesOf? command | throw .misuse
    let (given, _) ← scan (switches ++ globalSwitches) false {} none arguments
    checkGlobal given
    readCommand command given

end MockDialect.Command
