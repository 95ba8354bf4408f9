import MockDialect.Pattern.CharSet

namespace MockDialect.Ignore

open Pattern

inductive Token where
  | literal (c : Char)
  | any
  | star
  | leadingDirectories
  | trailingDirectories
  | innerDirectories
  | set (members : CharSet)
  | alternatives (pattern : Pattern)

def bytesOf (s : String) : List Char := s.toUTF8.toList.map fun b => Char.ofNat b.toNat

def notSlash : Pattern := .one (· != '/')

def anything : Pattern := .many (.one fun _ => true)

def slash : Pattern := .char '/'

def Token.pattern : Token → Pattern
  | literal c => .text (bytesOf (String.singleton c))
  | any => notSlash
  | star => .many notSlash
  | leadingDirectories => .either (.optional slash) (.seq anything slash)
  | trailingDirectories => .seq slash anything
  | innerDirectories => .either slash (.seq slash (.seq anything slash))
  | set members => .one members
  | alternatives p => p

def patternOf (tokens : List Token) : Pattern := .sequence (tokens.map Token.pattern)

structure Frame where
  tokens : List Token := []
  finished : List (List Token) := []

namespace Frame

def push (f : Frame) (t : Token) : Frame := { f with tokens := t :: f.tokens }

def nextAlternative (f : Frame) : Frame := { tokens := [], finished := f.tokens.reverse :: f.finished }

def close (f : Frame) : Token :=
  match (f.nextAlternative.finished.reverse.filter fun ts => !ts.isEmpty).map patternOf with
  | [] => .alternatives .empty
  | p :: ps => .alternatives (.choice p ps)

def pushDirectories (f : Frame) (last : Bool) : Frame :=
  match f.tokens with
  | .leadingDirectories :: _ => f
  | .trailingDirectories :: _ => f
  | _ :: ts => { f with tokens := (if last then .trailingDirectories else .innerDirectories) :: ts }
  | [] => f

end Frame

def readSetMembers (first : Bool) (dash : Bool) (ranges : List (Char × Char)) :
    List Char → Option (Option (List (Char × Char)) × List Char)
  | [] => none
  | ']' :: rest =>
    if first then readSetMembers false dash ((']', ']') :: ranges) rest
    else some (some (if dash then ('-', '-') :: ranges else ranges), rest)
  | '-' :: rest =>
    if first then readSetMembers false dash (('-', '-') :: ranges) rest
    else if dash then
      match ranges with
      | (low, _) :: others => if low ≤ '-' then readSetMembers false false ((low, '-') :: others) rest
        else some (none, rest)
      | [] => none
    else readSetMembers false true ranges rest
  | c :: rest =>
    if dash then
      match ranges with
      | (low, _) :: others => if low ≤ c then readSetMembers false false ((low, c) :: others) rest
        else some (none, rest)
      | [] => none
    else readSetMembers false false ((c, c) :: ranges) rest

/-- A set after its opening bracket. The outer option is for a set that is not closed, the inner one for a
range that runs backwards. -/
def readSet (cs : List Char) : Option (Option Token × List Char) :=
  let (negated, cs) := match cs with
    | '!' :: rest => (true, rest)
    | '^' :: rest => (true, rest)
    | cs => (false, cs)
  (readSetMembers true false [] cs).map fun (ranges, rest) =>
    (ranges.map fun ranges => .set fun c =>
      negated != ranges.any fun (low, high) => CharSet.range low high c, rest)

/-- Two stars: the character before them, whether they stand in braces, the tokens, and what follows. They
mean directories only where slashes or the ends are on both sides. -/
def readTwoStars (before : Option Char) (inBraces : Bool) (f : Frame) (rest : List Char) :
    Frame × Option Char × List Char :=
  let plain := ((f.push .star).push .star, some '*', rest)
  if f.tokens.isEmpty then
    match rest with
    | [] => (f.push .leadingDirectories, some '*', [])
    | '/' :: rest => (f.push .leadingDirectories, some '/', rest)
    | _ => plain
  else if before != some '/' && !(inBraces && (before == some ',' || before == some '\x7b')) then plain
  else
    match rest with
    | [] => (f.pushDirectories true, some '*', [])
    | '/' :: after => (f.pushDirectories false, some '/', after)
    | c :: _ => if inBraces && (c == ',' || c == '\x7d') then (f.pushDirectories true, some '*', rest)
      else plain

/-- The tokens of a glob. The fuel is at least the number of characters left; frames of enclosing braces
come innermost first. -/
def readTokens : Nat → Option Char → Frame → List Frame → List Char → Option (List Token)
  | 0, _, _, _, _ => none
  | n + 1, before, f, outer, cs =>
    match cs with
    | [] => if outer.isEmpty then some f.tokens.reverse else none
    | '?' :: rest => readTokens n (some '?') (f.push .any) outer rest
    | '*' :: '*' :: rest =>
      let (f, before, rest) := readTwoStars before (!outer.isEmpty) f rest
      readTokens n before f outer rest
    | '*' :: rest => readTokens n (some '*') (f.push .star) outer rest
    | '[' :: rest =>
      match readSet rest with
      | some (some set, rest) => readTokens n (some ']') (f.push set) outer rest
      | some (none, _) => none
      | none => readTokens n (some '[') (f.push (.literal '[')) outer rest
    | '\x7b' :: rest => readTokens n (some '\x7b') {} (f :: outer) rest
    | '\x7d' :: rest =>
      match outer with
      | g :: outer => readTokens n (some '\x7d') (g.push f.close) outer rest
      | [] => none
    | ',' :: rest =>
      if outer.isEmpty then readTokens n (some ',') (f.push (.literal ',')) outer rest
      else readTokens n (some ',') f.nextAlternative outer rest
    | '\\' :: c :: rest => readTokens n (some c) (f.push (.literal c)) outer rest
    | ['\\'] => none
    | c :: rest => readTokens n (some c) (f.push (.literal c)) outer rest

def glob? (cs : List Char) : Option Pattern :=
  match readTokens (cs.length + 1) none {} [] cs with
  | some [.leadingDirectories] => some anything
  | some tokens => some (patternOf tokens)
  | none => none

end MockDialect.Ignore
