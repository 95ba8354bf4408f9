namespace MockDialect.Api

inductive EntryClass where
  | mockito | bddMockito
  deriving DecidableEq

namespace EntryClass

def all : List EntryClass := [mockito, bddMockito]

def simpleName : EntryClass → String
  | mockito => "Mockito"
  | bddMockito => "BDDMockito"

def qualifiedName : EntryClass → String
  | mockito => "org.mockito.Mockito"
  | bddMockito => "org.mockito.BDDMockito"

def sees : EntryClass → EntryClass → Bool
  | _, mockito => true
  | cls, bddMockito => cls == bddMockito

end EntryClass

def bddStatics : List String :=
  ["given", "then", "will", "willReturn", "willThrow", "willAnswer", "willCallRealMethod", "willDoNothing"]

/-- The class that declares a static method; what is not special to `BDDMockito` is taken for `Mockito`. -/
def declaringClass (method : String) : EntryClass :=
  if bddStatics.contains method then .bddMockito else .mockito

end MockDialect.Api
