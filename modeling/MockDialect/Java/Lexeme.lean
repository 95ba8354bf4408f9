import MockDialect.Java.Number
import MockDialect.Text.Blank
import MockDialect.Text.NameChar

namespace MockDialect.Java

open Text

inductive Lexeme where
  | blank | lineComment | blockComment | word | number | character | string | symbol
  deriving DecidableEq

namespace Lexeme

/-- White space between tokens; only ASCII white space separates tokens. -/
def isSeparator (c : Char) : Bool := (0x09 ≤ c.toNat && c.toNat ≤ 0x0D) || c == ' '

def throughStarSlash : List Char → Option (List Char × List Char)
  | [] => none
  | '*' :: '/' :: rest => some (['*', '/'], rest)
  | c :: cs => (throughStarSlash cs).map fun (taken, rest) => (c :: taken, rest)

def throughQuote : List Char → Option (List Char × List Char)
  | [] => none
  | '\x22' :: rest => some (['\x22'], rest)
  | '\\' :: c :: cs => (throughQuote cs).map fun (taken, rest) => ('\\' :: c :: taken, rest)
  | c :: cs => (throughQuote cs).map fun (taken, rest) => (c :: taken, rest)

def throughTripleQuote : List Char → Option (List Char × List Char)
  | [] => none
  | '\x22' :: '\x22' :: '\x22' :: rest => some (['\x22', '\x22', '\x22'], rest)
  | '\\' :: c :: cs => (throughTripleQuote cs).map fun (taken, rest) => ('\\' :: c :: taken, rest)
  | c :: cs => (throughTripleQuote cs).map fun (taken, rest) => (c :: taken, rest)

def throughApostrophe : List Char → Option (List Char × List Char)
  | [] => none
  | '\x27' :: rest => some (['\x27'], rest)
  | '\\' :: c :: cs => (throughApostrophe cs).map fun (taken, rest) => ('\\' :: c :: taken, rest)
  | c :: cs =>
    if c = '\n' then none
    else (throughApostrophe cs).map fun (taken, rest) => (c :: taken, rest)

/-- The characters at the head of a text that can belong to a number. `last` is the character before them: a
sign goes on only after an exponent mark. -/
def numeral (last : Char) : List Char → List Char
  | [] => []
  | c :: cs =>
    let goesOn := c.isAlphanum || c == '_' || c == '.' ||
      ((c == '+' || c == '-') && (last == 'e' || last == 'E' || last == 'p' || last == 'P'))
    if goesOn then c :: numeral c cs else []

def number? (c : Char) (cs : List Char) : Option (List Char × List Char) :=
  let run := numeral c cs
  ((List.range (run.length + 1)).reverse.find? fun n => Number.isNumber (c :: run.take n)).map fun n =>
    (cs.take n, cs.drop n)

def symbols : List String :=
  [">>>=", "<<=", ">>=", ">>>", "...", "->", "::", "++", "--", "&&", "||", "==", "!=", "<=", ">=",
   "+=", "-=", "*=", "/=", "&=", "|=", "^=", "%=", "<<", ">>", "(", ")", "\x7b", "\x7d", "[", "]",
   ";", ",", ".", "@", "=", ">", "<", "!", "~", "?", ":", "+", "-", "*", "/", "&", "|", "^", "%"]

def symbol? (cs : List Char) : Option (List Char × List Char) :=
  (symbols.find? fun s => s.toList.isPrefixOf cs).map fun s => (s.toList, cs.drop s.length)

def tagged (l : Lexeme) (lead : List Char) :
    Option (List Char × List Char) → Option (Lexeme × List Char × List Char)
  | some (taken, rest) => some (l, lead ++ taken, rest)
  | none => none

def next? : List Char → Option (Lexeme × List Char × List Char)
  | [] => none
  | '/' :: '/' :: cs => some (.lineComment, '/' :: '/' :: cs.takeWhile (· ≠ '\n'), cs.dropWhile (· ≠ '\n'))
  | '/' :: '*' :: cs => tagged .blockComment ['/', '*'] (throughStarSlash cs)
  | '\x22' :: '\x22' :: '\x22' :: cs =>
    tagged .string ['\x22', '\x22', '\x22'] (throughTripleQuote cs)
  | '\x22' :: cs => tagged .string ['\x22'] (throughQuote cs)
  | '\x27' :: '\x27' :: _ => none
  | '\x27' :: cs => tagged .character ['\x27'] (throughApostrophe cs)
  | c :: cs =>
    if isSeparator c then some (.blank, c :: cs.takeWhile isSeparator, cs.dropWhile isSeparator)
    else if isNameStart c then some (.word, c :: cs.takeWhile isNameRest, cs.dropWhile isNameRest)
    else if c.isDigit || (c == '.' && cs.head?.any Char.isDigit) then
      tagged .number [c] (number? c cs)
    else tagged .symbol [] (symbol? (c :: cs))

def cut : Nat → List Char → Option (List (Lexeme × List Char))
  | _, [] => some []
  | 0, _ => none
  | n + 1, cs =>
    match next? cs with
    | none => none
    | some (l, taken, rest) => (cut n rest).map ((l, taken) :: ·)

end Lexeme

end MockDialect.Java
