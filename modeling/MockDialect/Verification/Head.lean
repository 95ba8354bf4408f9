import MockDialect.Verification.Dialect

namespace MockDialect.Verification

open Chain

structure Head where
  calls : Nat
  mock : Option String := none
  mode : Option String := none
  inOrder : Option String := none
  mockedStatic : Option String := none
  verification : Option String := none
  deriving DecidableEq

/-- The head of a chain of a dialect; none if the chain does not begin like the dialect. -/
def Dialect.head? (d : Dialect) (chain : Chain) : Option Head :=
  if !d.begins chain then none
  else
    match d, chain.calls with
    | mockitoVerify, verify :: _ =>
      some { calls := 1, mock := verify.argText? 0, mode := verify.argText? 1 }
    | thenShould, entry :: should :: _ =>
      if thenShould.isOrdered chain then
        some { calls := 2, mock := entry.argText? 0, inOrder := should.argText? 0,
               mode := should.argText? 1 }
      else some { calls := 2, mock := entry.argText? 0, mode := should.argText? 0 }
    | inOrderVerify, verify :: _ =>
      some { calls := 1, mock := verify.argText? 0, mode := verify.argText? 1,
             inOrder := verify.qualifierText? }
    | inOrderVerifyStatic, verify :: _ =>
      some { calls := 1, mockedStatic := verify.argText? 0, verification := verify.argText? 1,
             mode := verify.argText? 2, inOrder := verify.qualifierText? }
    | staticVerify, verify :: _ =>
      some { calls := 1, mockedStatic := verify.qualifierText?, verification := verify.argText? 0,
             mode := verify.argText? 1 }
    | _, _ => none

end MockDialect.Verification
