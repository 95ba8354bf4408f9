import MockDialect.Stubbing.Sentence
import MockDialect.Verification.Dialect

namespace MockDialect.Recognition

open Chain

inductive Dialect where
  | stubbing (dialect : Stubbing.Dialect)
  | verification (dialect : Verification.Dialect)
  deriving DecidableEq

namespace Dialect

/-- Every dialect, in the order in which they are tried. -/
def all : List Dialect := Stubbing.Dialect.all.map stubbing ++ Verification.Dialect.all.map verification

def name : Dialect → String
  | stubbing d => d.name
  | verification d => d.name

def presentable : Dialect → String
  | stubbing d => d.presentable
  | verification d => d.presentable

def family : Dialect → Family
  | stubbing d => d.family
  | verification d => d.family

def begins : Dialect → Chain → Bool
  | stubbing d, chain => d.begins chain
  | verification d, chain => d.begins chain

def flaw? : Dialect → Chain → Option Flaw
  | stubbing d, chain => d.flaw? chain
  | verification d, chain => d.flaw? chain

end Dialect

def matching (chain : Chain) : List Dialect := Dialect.all.filter (·.begins chain)

/-- The dialect of a chain: the first that it begins like. -/
def classify? (chain : Chain) : Option Dialect := Dialect.all.find? (·.begins chain)

theorem classify?_eq_head?_matching (chain : Chain) : classify? chain = (matching chain).head? := by
  simp [classify?, matching]

end MockDialect.Recognition
