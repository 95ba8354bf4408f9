import MockDialect.Java.Grammar.Declarations

namespace MockDialect.Java

open Text

def depthPerToken : Nat := 200

/-- The tree of a text, or none if the text is not Java. The root runs from the first token or comment
to the end of the text. -/
def parse? (text : List Char) : Option Node :=
  match Token.read text with
  | none => none
  | some (tokens, trailing) =>
    match Rule.run Grammar.java (depthPerToken * (tokens.length + 1)) (.many Grammar.topLevel) tokens with
    | some (nodes, []) =>
      let nodes := nodes ++ trailing
      let stop := width text
      let start := (nodes.head?.map (·.span.start)).getD stop
      some (.mk .program none ⟨start, stop⟩ nodes)
    | _ => none

end MockDialect.Java
