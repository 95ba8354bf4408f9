import MockDialect.Text.Offset

namespace MockDialect.Text

def breakEnds : Nat → List Char → List Nat
  | _, [] => []
  | offset, c :: cs =>
    if c = '\n' then (offset + 1) :: breakEnds (offset + 1) cs
    else breakEnds (offset + c.utf8Size) cs

def lineStarts (cs : List Char) : List Nat := 0 :: breakEnds 0 cs

def breaksBefore : Nat → List Char → Nat
  | 0, _ => 0
  | _ + 1, [] => 0
  | n + 1, c :: cs =>
    (if c = '\n' then 1 else 0) + breaksBefore (n + 1 - c.utf8Size) cs

def lineOf (cs : List Char) (offset : Nat) : Nat := breaksBefore offset cs + 1

/-- Range of the lines `first` to `last`, the last line break not included. The range ends with the
text when there are fewer lines. -/
def lineSpan? (cs : List Char) (first last : Nat) : Option Span :=
  if first = 0 ∨ last < first then none
  else
    match (lineStarts cs)[first - 1]? with
    | none => none
    | some start =>
      let stop := match (lineStarts cs)[last]? with
        | some next => next - 1
        | none => width cs
      some ⟨start, max stop start⟩

def lineStart (cs : List Char) (offset : Nat) : Nat :=
  ((lineStarts cs).takeWhile (· ≤ offset)).getLastD 0

def nextLineStart (cs : List Char) (offset : Nat) : Nat :=
  ((lineStarts cs).find? (offset < ·)).getD (width cs)

def columnOf (cs : List Char) (offset : Nat) : Nat := offset - lineStart cs offset + 1

end MockDialect.Text
