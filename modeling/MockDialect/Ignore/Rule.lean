import MockDialect.Files.Path
import MockDialect.Ignore.Glob
import MockDialect.Text.Blank
import MockDialect.Text.Lossy

namespace MockDialect.Ignore

open Pattern Text

inductive Verdict where
  | silent | ignored | kept
  deriving DecidableEq

def Verdict.orElse : Verdict → Verdict → Verdict
  | silent, other => other
  | verdict, _ => verdict

structure Rule where
  pattern : Pattern
  keeps : Bool
  directoriesOnly : Bool

def trimLine (line : List Char) : List Char :=
  if ['\\', ' '].isSuffixOf line then line else dropBlankEnd line

/-- Whether a rule keeps, whether it holds for its own directory only, and the rest of the line. -/
def readMarks (line : List Char) : Bool × Bool × List Char :=
  match line with
  | '\\' :: '!' :: rest => (false, false, '!' :: rest)
  | '\\' :: '#' :: rest => (false, false, '#' :: rest)
  | '!' :: '/' :: rest => (true, true, rest)
  | '!' :: rest => (true, false, rest)
  | '/' :: rest => (false, true, rest)
  | line => (false, false, line)

def readDirectoryMark (line : List Char) : Bool × List Char :=
  match line.reverse with
  | '/' :: '\\' :: rest => (true, rest.reverse)
  | '/' :: rest => (true, rest.reverse)
  | _ => (false, line)

/-- The glob of a rule. Without a slash it matches at any depth; what stops at two stars is meant for the
inside of a directory. -/
def globOf (anchored : Bool) (line : List Char) : List Char :=
  let anywhere := "**/".toList
  let glob :=
    if !anchored && !line.contains '/' && line != ['*', '*'] then anywhere ++ line else line
  if "/**".toList.isSuffixOf glob then glob ++ "/*".toList else glob

def ruleOf? (line : List Char) : Option Rule :=
  if line.head? == some '#' then none
  else
    match trimLine line with
    | [] => none
    | line =>
      let (keeps, anchored, line) := readMarks line
      let (directoriesOnly, line) := readDirectoryMark line
      (glob? (globOf anchored line)).map fun p => ⟨p, keeps, directoriesOnly⟩

def linesOf (text : List Char) : List (List Char) :=
  (text.splitOn '\n').map fun line =>
    match line.reverse with
    | '\r' :: rest => rest.reverse
    | _ => line

def withoutMark : List Char → List Char
  | c :: rest => if c.toNat == 0xFEFF then rest else c :: rest
  | [] => []

def rulesOf (content : List UInt8) : List Rule :=
  (linesOf (withoutMark (Lossy.read content).1.toList)).filterMap ruleOf?

def Rule.verdict (r : Rule) (path : List Char) (directory : Bool) : Verdict :=
  if (directory || !r.directoriesOnly) && r.pattern.covers path then
    if r.keeps then .kept else .ignored
  else .silent

def verdictOf (rules : List Rule) (path : List String) (directory : Bool) : Verdict :=
  let bytes := bytesOf ("/".intercalate path)
  rules.reverse.foldl (fun verdict r => verdict.orElse (r.verdict bytes directory)) .silent

end MockDialect.Ignore
