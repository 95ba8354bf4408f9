import MockDialect.Text.Dotted

namespace MockDialect.Command

open Text

structure Switch where
  name : String
  letter : Option Char := none
  takesValue : Bool := true

inductive Stop where
  | misuse
  | help
  deriving DecidableEq

/-- What was found on a command line. A switch without a value has the empty one. -/
structure Given where
  switches : List (String × String) := []
  words : List String := []

namespace Given

def value? (g : Given) (name : String) : Option String := g.switches.lookup name

def has (g : Given) (name : String) : Bool := (g.value? name).isSome

def addWord (g : Given) (word : String) : Given := { g with words := g.words ++ [word] }

def add (g : Given) (s : Switch) (value : String) : Except Stop Given :=
  if g.has s.name then .error .misuse
  else .ok { g with switches := g.switches ++ [(s.name, value)] }

end Given

inductive Shape where
  | wordsFollow
  | long (name : String) (value : Option String)
  | letters (cs : List Char)
  | word

def shapeOf (argument : String) : Shape :=
  match argument.toList with
  | ['-', '-'] => .wordsFollow
  | '-' :: '-' :: rest =>
    .long (String.ofList (rest.takeWhile (· != '='))) (match rest.dropWhile (· != '=') with
      | _ :: value => some (String.ofList value)
      | [] => none)
  | '-' :: c :: rest => .letters (c :: rest)
  | _ => .word

inductive Letters where
  | done (given : Given)
  | pending (given : Given) (s : Switch)

def readLetters (switches : List Switch) (g : Given) : List Char → Except Stop Letters
  | [] => .ok (.done g)
  | c :: rest =>
    match switches.find? fun s => s.letter == some c with
    | none => .error (if c == 'h' then .help else .misuse)
    | some s =>
      if s.takesValue then
        match rest with
        | [] => .ok (.pending g s)
        | '=' :: value => (g.add s (String.ofList value)).map .done
        | value => (g.add s (String.ofList value)).map .done
      else
        match g.add s "" with
        | .error stop => .error stop
        | .ok g => readLetters switches g rest

/-- Go through arguments. The switch in front waits for its value, which may not look like a switch. With
`commands`, the first word ends the search, and it is given back with all that follows. -/
def scan (switches : List Switch) (commands : Bool) (g : Given) (waiting : Option Switch) :
    List String → Except Stop (Given × List String)
  | [] => if waiting.isSome then .error .misuse else .ok (g, [])
  | argument :: rest =>
    match waiting, shapeOf argument with
    | some s, .word =>
      match g.add s argument with
      | .error stop => .error stop
      | .ok g => scan switches commands g none rest
    | some _, _ => .error .misuse
    | none, .wordsFollow =>
      if commands then .error .misuse else .ok ({ g with words := g.words ++ rest }, [])
    | none, .long name value =>
      match switches.find? fun s => s.name == name with
      | none => .error (if name == "help" && value.isNone then .help else .misuse)
      | some s =>
        if s.takesValue then
          match value with
          | none => scan switches commands g (some s) rest
          | some value =>
            match g.add s value with
            | .error stop => .error stop
            | .ok g => scan switches commands g none rest
        else if value.isSome then .error .misuse
        else
          match g.add s "" with
          | .error stop => .error stop
          | .ok g => scan switches commands g none rest
    | none, .letters cs =>
      match readLetters switches g cs with
      | .error stop => .error stop
      | .ok (.done g) => scan switches commands g none rest
      | .ok (.pending g s) => scan switches commands g (some s) rest
    | none, .word =>
      if commands then .ok (g, argument :: rest) else scan switches commands (g.addWord argument) none rest

end MockDialect.Command
