import MockDialect.Pattern.Escape

namespace MockDialect.Pattern

open Text (isBlank)

/-- What is in force at a place of a written pattern. -/
structure Flags where
  ignoreCase : Bool := false
  manyLines : Bool := false
  dotAll : Bool := false
  spaced : Bool := false

/-- Without blanks and comments; the first argument tells whether a comment is going on. -/
def dropSpace (comment : Bool) : List Char → List Char
  | [] => []
  | c :: rest =>
    if comment then dropSpace (c != '\n') rest
    else if isBlank c then dropSpace false rest
    else if c == '#' then dropSpace true rest
    else c :: rest

def skipSpace (flags : Flags) (cs : List Char) : List Char :=
  if flags.spaced then dropSpace false cs else cs

def Flags.fold (flags : Flags) (s : CharSet) : CharSet := if flags.ignoreCase then foldCase s else s

inductive SetOp where
  | intersection | difference | symmetricDifference

def SetOp.apply : SetOp → CharSet → CharSet → CharSet
  | intersection, a, b => fun c => a c && b c
  | difference, a, b => fun c => a c && !b c
  | symmetricDifference, a, b => fun c => a c != b c

/-- A set so far: what an operator has on its left, and the characters gathered since. -/
structure SetParts where
  left : Option (CharSet × SetOp) := none
  gathered : CharSet := fun _ => false

namespace SetParts

def value (p : SetParts) : CharSet :=
  match p.left with
  | some (left, op) => op.apply left p.gathered
  | none => p.gathered

def add (p : SetParts) (s : CharSet) : SetParts := { p with gathered := p.gathered.union s }

def operate (p : SetParts) (op : SetOp) : SetParts := { left := some (p.value, op) }

end SetParts

def readNamedSet (cs : List Char) : Option (CharSet × List Char) :=
  let (negated, cs) := match cs with
    | '^' :: rest => (true, rest)
    | cs => (false, cs)
  match cs.dropWhile (· != ':') with
  | ':' :: ']' :: rest =>
    (namedSet? (String.ofList (cs.takeWhile (· != ':')))).map fun s =>
      (if negated then s.complement else s, rest)
  | _ => none

def readMember : List Char → Option (Atom × List Char)
  | '\\' :: rest => readEscape rest
  | c :: rest => some (.char c, rest)
  | [] => none

def Atom.members? : Atom → Option CharSet
  | .char c => some (· == c)
  | .set s => some s
  | .look _ => none

def readRange (flags : Flags) (cs : List Char) : Option (CharSet × List Char) := do
  let (first, rest) ← readMember cs
  match skipSpace flags rest with
  | '-' :: after =>
    match skipSpace flags after with
    | ']' :: _ => return (← first.members?, '-' :: after)
    | '-' :: _ => return (← first.members?, '-' :: after)
    | after =>
      let (last, rest) ← readMember after
      match first, last with
      | .char a, .char b => if a ≤ b then some (CharSet.range a b, rest) else none
      | _, _ => none
  | rest => return (← first.members?, rest)

def readLeading (flags : Flags) : List Char → SetParts × List Char
  | '-' :: rest =>
    let dashes := rest.takeWhile fun c => c == '-' || (flags.spaced && isBlank c)
    (SetParts.add {} (· == '-'), rest.drop dashes.length)
  | ']' :: rest => (SetParts.add {} (· == ']'), rest)
  | cs => ({}, cs)

mutual

def readSet : Nat → Flags → List Char → Option (CharSet × List Char)
  | 0, _, _ => none
  | n + 1, flags, cs =>
    match skipSpace flags cs with
    | '^' :: rest =>
      let (parts, rest) := readLeading flags (skipSpace flags rest)
      (readMembers n flags parts rest).map fun (s, rest) => (s.complement, rest)
    | cs =>
      let (parts, rest) := readLeading flags cs
      readMembers n flags parts rest

def readMembers : Nat → Flags → SetParts → List Char → Option (CharSet × List Char)
  | 0, _, _, _ => none
  | n + 1, flags, parts, cs =>
    match skipSpace flags cs with
    | [] => none
    | ']' :: rest => some (parts.value, rest)
    | '&' :: '&' :: rest => readMembers n flags (parts.operate .intersection) rest
    | '-' :: '-' :: rest => readMembers n flags (parts.operate .difference) rest
    | '~' :: '~' :: rest => readMembers n flags (parts.operate .symmetricDifference) rest
    | '[' :: ':' :: rest =>
      match readNamedSet rest with
      | some (s, rest) => readMembers n flags (parts.add (flags.fold s)) rest
      | none =>
        match readSet n flags (':' :: rest) with
        | some (s, rest) => readMembers n flags (parts.add s) rest
        | none => none
    | '[' :: rest =>
      match readSet n flags rest with
      | some (s, rest) => readMembers n flags (parts.add s) rest
      | none => none
    | cs =>
      match readRange flags cs with
      | some (s, rest) => readMembers n flags (parts.add (flags.fold s)) rest
      | none => none

end

end MockDialect.Pattern
