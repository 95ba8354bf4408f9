namespace MockDialect.Recognition

inductive Flaw where
  | nothingChained
  | tooShort
  | entryMisplaced
  | mockNotReference
  | nothingVerified (lastCall : String)
  | notStubbing (method : String)
  | noAction
  | noStubbedCall
  | noMock
  | mockNotMovable
  | headNotRecognized
  | headIncomplete
  | alreadyOrdered

def Flaw.message : Flaw → String
  | nothingChained => "nothing is chained after the entry call"
  | tooShort => "expected a setter, the entry call and the stubbed call"
  | entryMisplaced => "the second-to-last call is not the entry call"
  | mockNotReference => "the entry call argument is not a mock reference"
  | nothingVerified lastCall => "nothing is verified after " ++ lastCall ++ "()"
  | notStubbing method => "'" ++ method ++ "' is not a stubbing call"
  | noAction => "no stubbing action"
  | noStubbedCall => "no stubbed call"
  | noMock => "the stubbed call has no mock qualifier"
  | mockNotMovable => "the stubbed call is not made on a mock reference"
  | headNotRecognized => "the verification head is not recognized"
  | headIncomplete => "incomplete verification head"
  | alreadyOrdered => "should() already takes an InOrder"

end MockDialect.Recognition
