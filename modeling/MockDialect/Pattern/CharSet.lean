import MockDialect.Pattern.Pattern
import MockDialect.Text.Blank
import MockDialect.Text.Lowercase
import MockDialect.Text.NameChar

namespace MockDialect.Pattern

open Text

abbrev CharSet := Char → Bool

namespace CharSet

def range (first last : Char) : CharSet := fun c => first ≤ c && c ≤ last

def union (a b : CharSet) : CharSet := fun c => a c || b c

def complement (a : CharSet) : CharSet := fun c => !a c

def of (chars : String) : CharSet := fun c => chars.toList.contains c

end CharSet

/-- The zeros of the scripts; nine further digits follow each. -/
def zeros : List Nat :=
  [0x30, 0x660, 0x6F0, 0x7C0, 0x966, 0x9E6, 0xA66, 0xAE6, 0xB66, 0xBE6, 0xC66, 0xCE6, 0xD66, 0xDE6, 0xE50,
   0xED0, 0xF20, 0x1040, 0x1090, 0x17E0, 0x1810, 0x1946, 0x19D0, 0x1A80, 0x1A90, 0x1B50, 0x1BB0, 0x1C40,
   0x1C50, 0xA620, 0xA8D0, 0xA900, 0xA9D0, 0xA9F0, 0xAA50, 0xABF0, 0xFF10, 0x104A0, 0x10D30, 0x11066,
   0x110F0, 0x11136, 0x111D0, 0x112F0, 0x11450, 0x114D0, 0x11650, 0x116C0, 0x11730, 0x118E0, 0x11950,
   0x11C50, 0x11D50, 0x11DA0, 0x11F50, 0x16A60, 0x16AC0, 0x16B50, 0x1D7CE, 0x1D7D8, 0x1D7E2, 0x1D7EC,
   0x1D7F6, 0x1E140, 0x1E2F0, 0x1E4F0, 0x1E950, 0x1FBF0]

def isDigit : CharSet := fun c => zeros.any fun z => z ≤ c.toNat && c.toNat ≤ z + 9

def isWord : CharSet := fun c => c == '_' || isNameRest c || c.toNat == 0x200C || c.toNat == 0x200D

/-- The characters that are equal to one but for case. -/
def caseVariants (c : Char) : List Char :=
  let lowered := match lowerChar c with
    | [l] => [l]
    | _ => []
  c :: c.toUpper :: lowered

/-- The set that also holds the other case of its characters. -/
def foldCase (s : CharSet) : CharSet := fun c => (caseVariants c).any s

def namedSet? (name : String) : Option CharSet :=
  match name with
  | "alnum" => some Char.isAlphanum
  | "alpha" => some Char.isAlpha
  | "ascii" => some fun c => c.toNat < 0x80
  | "blank" => some (CharSet.of " \t")
  | "cntrl" => some fun c => c.toNat < 0x20 || c.toNat == 0x7F
  | "digit" => some Char.isDigit
  | "graph" => some (CharSet.range '!' '~')
  | "lower" => some Char.isLower
  | "print" => some (CharSet.range ' ' '~')
  | "punct" => some fun c => CharSet.range '!' '~' c && !c.isAlphanum
  | "space" => some (CharSet.of " \t\n\r\x0b\x0c")
  | "upper" => some Char.isUpper
  | "word" => some fun c => c.isAlphanum || c == '_'
  | "xdigit" => some fun c =>
      c.isDigit || CharSet.range 'a' 'f' c || CharSet.range 'A' 'F' c
  | _ => none

def isCapital : CharSet := fun c => isLetter c && lowerChar c != [c]

/-- Properties by their names without case, blanks and connecting marks. -/
def property? (name : String) : Option CharSet :=
  match String.ofList ((name.toList.filter fun c => !CharSet.of " _-" c).map Char.toLower) with
  | "l" | "letter" | "alpha" | "alphabetic" => some isLetter
  | "lu" | "upper" | "uppercase" | "uppercaseletter" => some isCapital
  | "ll" | "lower" | "lowercase" | "lowercaseletter" => some fun c => isLetter c && !isCapital c
  | "nd" | "decimalnumber" | "digit" | "n" | "number" => some isDigit
  | "whitespace" | "space" | "wspace" => some isBlank
  | "z" | "separator" | "zs" | "spaceseparator" => some fun c => isBlank c && !CharSet.range '\t' '\r' c
  | "any" | "assigned" => some fun _ => true
  | "ascii" => some fun c => c.toNat < 0x80
  | "p" | "punct" | "punctuation" => some (CharSet.of "!\"#%&'()*,-./:;?@[\\]_\x7b\x7d")
  | "s" | "symbol" => some (CharSet.of "$+<=>^|~\x60")
  | _ => none

def isWordAt (c : Option Char) : Bool := c.any isWord

def wordBoundary (before after : Option Char) : Bool := isWordAt before != isWordAt after

def wordStart (before after : Option Char) : Bool := !isWordAt before && isWordAt after

def wordEnd (before after : Option Char) : Bool := isWordAt before && !isWordAt after

def textStart (before _after : Option Char) : Bool := before.isNone

def textEnd (_before after : Option Char) : Bool := after.isNone

def lineStart (before _after : Option Char) : Bool := before.all (· == '\n')

def lineEnd (_before after : Option Char) : Bool := after.all (· == '\n')

end MockDialect.Pattern
