import MockDialect.Pattern.CharSet
import MockDialect.Text.Hex

namespace MockDialect.Pattern

open Text (isBlank hexOf?)

/-- What an escape stands for. -/
inductive Atom where
  | char (c : Char)
  | set (s : CharSet)
  | look (holds : Option Char → Option Char → Bool)

def isMeta : CharSet := CharSet.of "\\.+*?()|[]\x7b\x7d^$#&-~"

def isEscapable (c : Char) : Bool :=
  isMeta c || (c.toNat < 0x80 && !c.isAlphanum && c != '<' && c != '>')

def charOf? (n : Nat) : Option Char := if n.isValidChar then some (Char.ofNat n) else none

def hexValue? (digits : List Char) : Option Nat :=
  if digits.isEmpty then none
  else digits.foldlM (fun value c => (hexOf? c).map (16 * value + ·)) 0

def readHex (count : Nat) : List Char → Option (Atom × List Char)
  | '\x7b' :: rest =>
    match rest.dropWhile (· != '\x7d') with
    | _ :: after => do
      let c ← charOf? (← hexValue? (rest.takeWhile (· != '\x7d')))
      return (.char c, after)
    | [] => none
  | cs => do
    if cs.length < count then none
    let c ← charOf? (← hexValue? (cs.take count))
    return (.char c, cs.drop count)

def propertyValue (name : List Char) : List Char × Bool :=
  match name.dropWhile fun c => c != '=' && c != ':' with
  | _ :: value => (value, (name.takeWhile fun c => c != '=' && c != ':').getLast? == some '!')
  | [] => (name, false)

def propertySet? (negated : Bool) (name : List Char) : Option Atom :=
  let (value, differs) := propertyValue name
  (property? (String.ofList value)).map fun s => .set (if negated != differs then s.complement else s)

def readProperty (negated : Bool) : List Char → Option (Atom × List Char)
  | '\x7b' :: rest =>
    match rest.dropWhile (· != '\x7d') with
    | _ :: after => (propertySet? negated (rest.takeWhile (· != '\x7d'))).map (·, after)
    | [] => none
  | c :: rest => (propertySet? negated [c]).map (·, rest)
  | [] => none

def namedBoundary? (name : List Char) : Option Atom :=
  match String.ofList name with
  | "start" => some (.look wordStart)
  | "end" => some (.look wordEnd)
  | "start-half" => some (.look fun before _ => !isWordAt before)
  | "end-half" => some (.look fun _ after => !isWordAt after)
  | _ => none

/-- What follows `\b`: a name in braces picks a narrower condition; other braces are a repetition. -/
def readBoundary : List Char → Option (Atom × List Char)
  | '\x7b' :: c :: rest =>
    if c.isAlpha || c == '-' then
      let name := (c :: rest).takeWhile fun c => c.isAlpha || c == '-'
      match (c :: rest).drop name.length with
      | '\x7d' :: after => (namedBoundary? name).map (·, after)
      | _ => none
    else some (.look wordBoundary, '\x7b' :: c :: rest)
  | cs => some (.look wordBoundary, cs)

def readEscape : List Char → Option (Atom × List Char)
  | [] => none
  | c :: rest =>
    match c with
    | 'x' => readHex 2 rest
    | 'u' => readHex 4 rest
    | 'U' => readHex 8 rest
    | 'p' => readProperty false rest
    | 'P' => readProperty true rest
    | 'd' => some (.set isDigit, rest)
    | 'D' => some (.set (CharSet.complement isDigit), rest)
    | 's' => some (.set isBlank, rest)
    | 'S' => some (.set (CharSet.complement isBlank), rest)
    | 'w' => some (.set isWord, rest)
    | 'W' => some (.set (CharSet.complement isWord), rest)
    | 'a' => some (.char '\x07', rest)
    | 'f' => some (.char '\x0c', rest)
    | 't' => some (.char '\t', rest)
    | 'n' => some (.char '\n', rest)
    | 'r' => some (.char '\r', rest)
    | 'v' => some (.char '\x0b', rest)
    | 'A' => some (.look textStart, rest)
    | 'z' => some (.look textEnd, rest)
    | 'b' => readBoundary rest
    | 'B' => some (.look fun before after => !wordBoundary before after, rest)
    | '<' => some (.look wordStart, rest)
    | '>' => some (.look wordEnd, rest)
    | c => if isEscapable c then some (.char c, rest) else none

end MockDialect.Pattern
