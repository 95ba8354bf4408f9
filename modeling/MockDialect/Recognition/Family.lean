namespace MockDialect.Recognition

inductive Family where
  | mockito
  | bdd
  | neutral
  deriving DecidableEq

def Family.name : Family → String
  | mockito => "mockito"
  | bdd => "bdd"
  | neutral => "neutral"

end MockDialect.Recognition
