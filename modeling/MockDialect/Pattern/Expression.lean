import MockDialect.Pattern.Bracket

namespace MockDialect.Pattern

open Text (isBlank)

structure Item where
  pattern : Pattern
  repeatable : Bool := true

/-- The state of reading: flags in force, names given to groups, and what is left. -/
structure Reading where
  flags : Flags := {}
  names : List String := []
  rest : List Char

inductive Opening where
  | flags (flags : Flags)
  | group (flags : Flags) (name : Option String)

def Flags.switch? (flags : Flags) (on : Bool) (letter : Char) : Option Flags :=
  match letter with
  | 'i' => some { flags with ignoreCase := on }
  | 'm' => some { flags with manyLines := on }
  | 's' => some { flags with dotAll := on }
  | 'x' => some { flags with spaced := on }
  | 'U' | 'u' | 'R' => some flags
  | _ => none

/-- Flags up to a colon or a closing parenthesis. Each may be named once, and so may the dash; a dash has
to be followed by a flag. -/
def readFlags (flags : Flags) (seen : List Char) : List Char → Option (Opening × List Char)
  | ':' :: rest => if seen.head? == some '-' then none else some (.group flags none, rest)
  | ')' :: rest =>
    if seen.isEmpty || seen.head? == some '-' then none else some (.flags flags, rest)
  | c :: rest =>
    if seen.contains c then none
    else if c == '-' then readFlags flags ('-' :: seen) rest
    else match flags.switch? (!seen.contains '-') c with
      | some flags => readFlags flags (c :: seen) rest
      | none => none
  | [] => none

def isNameInitial (c : Char) : Bool := c == '_' || Text.isLetter c

def isNamePart (c : Char) : Bool := isNameInitial c || isDigit c || c == '.' || c == '[' || c == ']'

def readName (r : Reading) (cs : List Char) : Option (Opening × List Char) :=
  let name := cs.takeWhile (· != '>')
  match cs.dropWhile (· != '>'), name with
  | _ :: rest, initial :: others =>
    if isNameInitial initial && others.all isNamePart && !r.names.contains (String.ofList name) then
      some (.group r.flags (some (String.ofList name)), rest)
    else none
  | _, _ => none

def readOpening (r : Reading) (cs : List Char) : Option (Opening × List Char) :=
  match skipSpace r.flags cs with
  | '?' :: 'P' :: '<' :: rest => readName r rest
  | '?' :: '<' :: '=' :: _ => none
  | '?' :: '<' :: '!' :: _ => none
  | '?' :: '<' :: rest => readName r rest
  | '?' :: rest => readFlags r.flags [] rest
  | cs => some (.group r.flags none, cs)

def countLimit : Nat := Nat.pow 2 32 - 1

def readCount (cs : List Char) : Option (Nat × List Char) :=
  let cs := cs.dropWhile isBlank
  match cs.takeWhile Char.isDigit with
  | [] => none
  | digits =>
    let n := digits.foldl (fun n c => 10 * n + (c.toNat - 48)) 0
    if n ≤ countLimit then some (n, (cs.dropWhile Char.isDigit).dropWhile isBlank) else none

def readBounds (cs : List Char) : Option (Nat × Option Nat × List Char) := do
  let (least, rest) ← readCount cs
  match rest with
  | '\x7d' :: rest => return (least, some least, rest)
  | ',' :: rest =>
    match rest.dropWhile isBlank with
    | '\x7d' :: rest => return (least, none, rest)
    | rest =>
      let (most, rest) ← readCount rest
      match rest with
      | '\x7d' :: rest => if least ≤ most then return (least, some most, rest) else none
      | _ => none
  | _ => none

/-- A repetition at the beginning of a text, if there is one; none inside if it is malformed. -/
def readRepetition (cs : List Char) : Option (Option (Nat × Option Nat × List Char)) :=
  match cs with
  | '*' :: rest => some (some (0, none, rest))
  | '+' :: rest => some (some (1, none, rest))
  | '?' :: rest => some (some (0, some 1, rest))
  | '\x7b' :: rest => some (readBounds rest)
  | _ => none

def dropLazy : List Char → List Char
  | '?' :: rest => rest
  | cs => cs

def Atom.pattern (flags : Flags) : Atom → Pattern
  | .char c => .one (flags.fold (· == c))
  | .set s => .one (flags.fold s)
  | .look holds => .look holds

def readStep (r : Reading) : Option (Pattern × List Char) :=
  match r.rest with
  | '[' :: rest => (readSet (2 * rest.length + 2) r.flags rest).map fun (s, rest) => (.one s, rest)
  | '\\' :: rest => (readEscape rest).map fun (atom, rest) => (atom.pattern r.flags, rest)
  | '.' :: rest => some (.one fun c => r.flags.dotAll || c != '\n', rest)
  | '^' :: rest => some (.look (if r.flags.manyLines then lineStart else textStart), rest)
  | '$' :: rest => some (.look (if r.flags.manyLines then lineEnd else textEnd), rest)
  | c :: rest => some ((Atom.char c).pattern r.flags, rest)
  | [] => none

def repeatLast (least : Nat) (most : Option Nat) : List Item → Option (List Item)
  | item :: items =>
    if item.repeatable then some (⟨.repeated least most item.pattern, true⟩ :: items) else none
  | [] => none

mutual

/-- Steps up to a bar, a closing parenthesis or the end; they are kept in reverse. -/
def readItems : Nat → Reading → List Item → Option (List Item × Reading)
  | 0, _, _ => none
  | n + 1, r, items =>
    let r := { r with rest := skipSpace r.flags r.rest }
    match r.rest with
    | [] => some (items, r)
    | ')' :: _ => some (items, r)
    | '|' :: _ => some (items, r)
    | '(' :: rest =>
      match readOpening r rest with
      | none => none
      | some (.flags flags, rest) =>
        readItems n { r with flags := flags, rest := rest } (⟨.empty, false⟩ :: items)
      | some (.group flags name, rest) =>
        match readChoice n ⟨flags, name.toList ++ r.names, rest⟩ with
        | none => none
        | some (p, inner) =>
          match inner.rest with
          | ')' :: rest => readItems n ⟨r.flags, inner.names, rest⟩ (⟨p, true⟩ :: items)
          | _ => none
    | cs =>
      match readRepetition cs with
      | some none => none
      | some (some (least, most, rest)) =>
        match repeatLast least most items with
        | some items => readItems n { r with rest := dropLazy rest } items
        | none => none
      | none =>
        match readStep r with
        | some (p, rest) => readItems n { r with rest := rest } (⟨p, true⟩ :: items)
        | none => none

def readChoice : Nat → Reading → Option (Pattern × Reading)
  | 0, _ => none
  | n + 1, r =>
    match readItems n r [] with
    | none => none
    | some (items, r) =>
      let first := Pattern.sequence (items.reverse.map Item.pattern)
      match r.rest with
      | '|' :: rest => (readChoice n { r with rest := rest }).map fun (p, r) => (.either first p, r)
      | _ => some (first, r)

end

def sizeLimit : Nat := 327680

def parse? (text : String) : Option Pattern :=
  let cs := text.toList
  match readChoice (2 * cs.length + 2) ⟨{}, [], cs⟩ with
  | some (p, r) => if r.rest.isEmpty && p.size < sizeLimit then some p else none
  | none => none

end MockDialect.Pattern
