namespace MockDialect

inductive Pattern where
  | empty
  | one (accepts : Char → Bool)
  | look (holds : Option Char → Option Char → Bool)
  | seq (first second : Pattern)
  | either (first second : Pattern)
  | repeated (least : Nat) (most : Option Nat) (inner : Pattern)

namespace Pattern

def char (c : Char) : Pattern := one (· == c)

def many (p : Pattern) : Pattern := repeated 0 none p

def optional (p : Pattern) : Pattern := repeated 0 (some 1) p

def sequence : List Pattern → Pattern
  | [] => empty
  | [p] => p
  | p :: ps => seq p (sequence ps)

def text (s : List Char) : Pattern := sequence (s.map char)

def choice (p : Pattern) : List Pattern → Pattern
  | [] => p
  | q :: qs => either p (choice q qs)

def size : Pattern → Nat
  | empty => 1
  | one _ => 1
  | look _ => 1
  | seq p q => p.size + q.size
  | either p q => p.size + q.size + 1
  | repeated least most p => p.size * max 1 (most.getD least) + 1

/-- A place in a text: the character before it and all that follow. -/
structure Place where
  before : Option Char
  rest : List Char

def Place.same (p q : Place) : Bool := p.rest.length == q.rest.length

def distinct (places : List Place) : List Place :=
  places.foldl (fun seen p => if seen.any p.same then seen else p :: seen) []

def stepsExactly (step : Place → List Place) : Nat → List Place → List Place
  | 0, places => places
  | n + 1, places => stepsExactly step n (distinct (places.flatMap step))

/-- The places after at most a number of steps: those seen, and those reached from the newest of them. -/
def stepsWithin (step : Place → List Place) : Nat → List Place → List Place → List Place
  | 0, seen, _ => seen
  | n + 1, seen, newest =>
    match (distinct (newest.flatMap step)).filter fun p => !seen.any p.same with
    | [] => seen
    | reached => stepsWithin step n (seen ++ reached) reached

/-- The places where a pattern that starts at a place can end. More rounds than there are characters bring
nothing new: one of them would have to be empty, and an empty round can be left out or done again. -/
def ends : Pattern → Place → List Place
  | .empty, p => [p]
  | .one accepts, p =>
    match p.rest with
    | c :: rest => if accepts c then [⟨some c, rest⟩] else []
    | [] => []
  | .look holds, p => if holds p.before p.rest.head? then [p] else []
  | .seq first second, p => distinct ((first.ends p).flatMap second.ends)
  | .either first second, p => distinct (first.ends p ++ second.ends p)
  | .repeated least most inner, p =>
    let length := p.rest.length
    let started := stepsExactly inner.ends (min least (length + 1)) [p]
    let further := match most with
      | some m => min (m - least) (length + 1)
      | none => length + 1
    stepsWithin inner.ends further started started

def placesFrom (before : Option Char) : List Char → List Place
  | [] => [⟨before, []⟩]
  | c :: rest => ⟨before, c :: rest⟩ :: placesFrom (some c) rest

def occursIn (p : Pattern) (text : List Char) : Bool :=
  (placesFrom none text).any fun place => !(p.ends place).isEmpty

def covers (p : Pattern) (text : List Char) : Bool :=
  (p.ends ⟨none, text⟩).any fun place => place.rest.isEmpty

end Pattern

end MockDialect
