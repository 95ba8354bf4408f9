import MockDialect.Java.Keyword
import MockDialect.Java.Lexeme
import MockDialect.Java.Node
import MockDialect.Text.Offset

namespace MockDialect.Java

open Text

structure Token where
  comments : List Node
  lexeme : Lexeme
  text : String
  span : Span

namespace Token

def isName (t : Token) : Bool := t.lexeme == .word && !isReserved t.text

def isText (t : Token) (text : String) : Bool :=
  (t.lexeme == .word || t.lexeme == .symbol) && t.text == text

/-- What stands at the head of some tokens, for telling phrases apart; a literal gives no word. -/
def headText : List Token → String
  | [] => ""
  | t :: _ => if t.lexeme == .word || t.lexeme == .symbol then t.text else ""

def assemble : Nat → List Node → List (Lexeme × List Char) → List Token × List Node
  | _, comments, [] => ([], comments)
  | offset, comments, (l, cs) :: rest =>
    let stop := offset + width cs
    match l with
    | .blank => assemble stop comments rest
    | .lineComment => assemble stop (comments ++ [.leaf .lineComment ⟨offset, stop⟩]) rest
    | .blockComment => assemble stop (comments ++ [.leaf .blockComment ⟨offset, stop⟩]) rest
    | _ =>
      let (tokens, trailing) := assemble stop [] rest
      (⟨comments, l, String.ofList cs, ⟨offset, stop⟩⟩ :: tokens, trailing)

def byteOrderMark : Char := Char.ofNat 0xFEFF

def read (cs : List Char) : Option (List Token × List Node) :=
  match cs with
  | c :: rest =>
    if c = byteOrderMark then
      (Lexeme.cut rest.length rest).map fun ls => assemble 0 [] ((.blank, [c]) :: ls)
    else (Lexeme.cut cs.length cs).map (assemble 0 [])
  | [] => some ([], [])

end Token

end MockDialect.Java
