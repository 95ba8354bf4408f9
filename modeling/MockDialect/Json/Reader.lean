import MockDialect.Json.Value

namespace MockDialect.Json

open Text (hexOf?)

def isJsonBlank (c : Char) : Bool := c == ' ' || c == '\t' || c == '\n' || c == '\r'

def skipBlank (cs : List Char) : List Char := cs.dropWhile isJsonBlank

def unit? (a b c d : Char) : Option Nat := do
  return (((← hexOf? a) * 16 + (← hexOf? b)) * 16 + (← hexOf? c)) * 16 + (← hexOf? d)

/-- A piece of a string: a character, or a UTF-16 unit from an escape. -/
inductive Piece where
  | char (c : Char)
  | unit (n : Nat)

def escaped? (c : Char) : Option Char :=
  match c with
  | '\x22' => some '\x22'
  | '\\' => some '\\'
  | '/' => some '/'
  | 'b' => some '\x08'
  | 'f' => some '\x0c'
  | 'n' => some '\n'
  | 'r' => some '\r'
  | 't' => some '\t'
  | _ => none

def readPieces : List Char → Option (List Piece × List Char)
  | [] => none
  | '\x22' :: rest => some ([], rest)
  | '\\' :: 'u' :: a :: b :: c :: d :: rest => do
    let n ← unit? a b c d
    let (pieces, rest) ← readPieces rest
    return (.unit n :: pieces, rest)
  | '\\' :: c :: rest => do
    let e ← escaped? c
    let (pieces, rest) ← readPieces rest
    return (.char e :: pieces, rest)
  | c :: rest => do
    if c.toNat < 0x20 || c == '\\' then none
    else
      let (pieces, rest) ← readPieces rest
      return (.char c :: pieces, rest)

def isHighUnit (n : Nat) : Bool := 0xD800 ≤ n && n ≤ 0xDBFF

def isLowUnit (n : Nat) : Bool := 0xDC00 ≤ n && n ≤ 0xDFFF

/-- Put surrogate pairs together; none if half a pair is left. -/
def joinPieces? : List Piece → Option (List Char)
  | [] => some []
  | .char c :: rest => (joinPieces? rest).map (c :: ·)
  | .unit h :: .unit l :: rest =>
    if isHighUnit h then
      if isLowUnit l then
        (joinPieces? rest).map (Char.ofNat (0x10000 + (h - 0xD800) * 0x400 + (l - 0xDC00)) :: ·)
      else none
    else if isLowUnit h then none
    else (joinPieces? (.unit l :: rest)).map (Char.ofNat h :: ·)
  | .unit n :: rest =>
    if isHighUnit n || isLowUnit n then none else (joinPieces? rest).map (Char.ofNat n :: ·)

def readString (cs : List Char) : Option (Option String × List Char) := do
  let (pieces, rest) ← readPieces cs
  return ((joinPieces? pieces).map String.ofList, rest)

def digits (cs : List Char) : List Char := cs.takeWhile Char.isDigit

def readDigits? (cs : List Char) : Option (List Char × List Char) :=
  match digits cs with
  | [] => none
  | ds => some (ds, cs.dropWhile Char.isDigit)

/-- The digits before the point; a zero stands alone. -/
def readWhole? (cs : List Char) : Option (List Char × List Char) :=
  match cs with
  | '0' :: c :: rest => if c.isDigit then none else some (['0'], c :: rest)
  | _ => readDigits? cs

def readFraction? : List Char → Option (List Char × List Char)
  | '.' :: rest => (readDigits? rest).map fun (ds, rest) => ('.' :: ds, rest)
  | cs => some ([], cs)

def readExponent? : List Char → Option (List Char × List Char)
  | e :: s :: rest =>
    if e == 'e' || e == 'E' then
      if s == '+' || s == '-' then (readDigits? rest).map fun (ds, rest) => (e :: s :: ds, rest)
      else (readDigits? (s :: rest)).map fun (ds, rest) => (e :: ds, rest)
    else some ([], e :: s :: rest)
  | [e] => if e == 'e' || e == 'E' then none else some ([], [e])
  | [] => some ([], [])

def readUnsigned? (cs : List Char) : Option (List Char × List Char) := do
  let (whole, cs) ← readWhole? cs
  let (fraction, cs) ← readFraction? cs
  let (exponent, cs) ← readExponent? cs
  return (whole ++ fraction ++ exponent, cs)

def readNumber? : List Char → Option (Value × List Char)
  | '-' :: cs => (readUnsigned? cs).map fun (t, rest) => (.number (String.ofList ('-' :: t)), rest)
  | cs => (readUnsigned? cs).map fun (t, rest) => (.number (String.ofList t), rest)

def readWord? (word : String) (value : Value) (cs : List Char) : Option (Value × List Char) :=
  if word.toList.isPrefixOf cs then some (value, cs.drop word.length) else none

mutual

/-- A value, with blanks before it. The fuel is at least the number of characters left. -/
def readValue? : Nat → List Char → Option (Value × List Char)
  | 0, _ => none
  | n + 1, cs =>
    match skipBlank cs with
    | '\x22' :: rest => (readString rest).map fun (t, rest) => (.string t, rest)
    | '[' :: rest =>
      match skipBlank rest with
      | ']' :: rest => some (.array [], rest)
      | rest => (readItems? n rest).map fun (vs, rest) => (.array vs, rest)
    | '\x7b' :: rest =>
      match skipBlank rest with
      | '\x7d' :: rest => some (.object [], rest)
      | rest => (readMembers? n rest).map fun (ms, rest) => (.object ms, rest)
    | 't' :: rest => readWord? "true" (.bool true) ('t' :: rest)
    | 'f' :: rest => readWord? "false" (.bool false) ('f' :: rest)
    | 'n' :: rest => readWord? "null" .null ('n' :: rest)
    | cs => readNumber? cs

def readItems? : Nat → List Char → Option (List Value × List Char)
  | 0, _ => none
  | n + 1, cs =>
    match readValue? n cs with
    | none => none
    | some (v, rest) =>
      match skipBlank rest with
      | ',' :: rest => (readItems? n rest).map fun (vs, rest) => (v :: vs, rest)
      | ']' :: rest => some ([v], rest)
      | _ => none

def readMembers? : Nat → List Char → Option (List (Option String × Value) × List Char)
  | 0, _ => none
  | n + 1, cs =>
    match skipBlank cs with
    | '\x22' :: rest =>
      match readString rest with
      | none => none
      | some (key, rest) =>
        match skipBlank rest with
        | ':' :: rest =>
          match readValue? n rest with
          | none => none
          | some (v, rest) =>
            match skipBlank rest with
            | ',' :: rest => (readMembers? n rest).map fun (ms, rest) => ((key, v) :: ms, rest)
            | '\x7d' :: rest => some ([(key, v)], rest)
            | _ => none
        | _ => none
    | _ => none

end

def parse? (text : String) : Option Value :=
  let cs := text.toList
  match readValue? (2 * cs.length + 2) cs with
  | some (v, rest) => if (skipBlank rest).isEmpty then some v else none
  | none => none

end MockDialect.Json
