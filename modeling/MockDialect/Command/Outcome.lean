import MockDialect.Config
import MockDialect.Conversion.Report

namespace MockDialect.Command

open Config Conversion Files

inductive CommandError where
  | unreadable (error : AccessError)
  | config (error : ConfigError)
  | conversion (failure : Failure)
  | setting (error : Settings.SettingError)
  | noLines (first last : Nat) (file : String)
  | badName (error : Java.NameError)
  | stopped (outcome : Outcome) (reason : String)
  | noSettings
  | noDirectory (path : String)
  | noConvention
  | malformedPattern (pattern : String)
  | violations (count : Nat)

/-- How texts are described that cannot be read; everything else about an error is fixed. -/
structure Wording where
  malformedConfig : String := "not a configuration in JSON"
  malformedPattern : String := "not a regular expression"

def configMessage (wording : Wording) : ConfigError → String
  | .unreadable error => "I/O error: " ++ error.message
  | .malformed path => "Invalid configuration in " ++ path ++ ": " ++ wording.malformedConfig
  | .badName path error => "Invalid configuration in " ++ path ++ ": " ++ error.message

def CommandError.message (wording : Wording) : CommandError → String
  | unreadable error => "I/O error: " ++ error.message
  | config error => configMessage wording error
  | conversion failure => failure.message
  | setting error => error.message
  | noLines first last file =>
    "Lines " ++ toString first ++ "..=" ++ toString last ++ " are outside " ++ file
  | badName error => error.message
  | stopped outcome reason => "Conversion " ++ outcome.name ++ ": " ++ reason
  | noSettings => "Pass --annotation or --call"
  | noDirectory path => "Directory not found: " ++ path
  | noConvention =>
    "No convention to check: pass --convention or set \"convention\" in " ++ fileName
  | malformedPattern pattern =>
    "Invalid regex pattern '" ++ pattern ++ "': " ++ wording.malformedPattern
  | violations count => toString count ++ " convention violation(s) found"

structure Result where
  output : String := ""
  notes : String := ""
  written : Option (String × String) := none
  error : Option CommandError := none

namespace Result

def ofExcept : Except CommandError Result → Result
  | .ok result => result
  | .error error => { error := some error }

def exitCode (r : Result) : Nat := if r.error.isSome then 1 else 0

def sideText (r : Result) (wording : Wording) : String :=
  match r.error with
  | some error => r.notes ++ "Error: " ++ error.message wording ++ "\n"
  | none => r.notes

end Result

end MockDialect.Command
