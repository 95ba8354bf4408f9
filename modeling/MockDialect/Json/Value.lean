import MockDialect.Text.Hex

namespace MockDialect.Json

open Text (hexDigit)

/-- A JSON value. A text that was read is missing where it holds half of a surrogate pair and so stands
for no sequence of characters; an object keeps its members in order, repeated keys included. -/
inductive Value where
  | null
  | bool (value : Bool)
  | number (text : String)
  | string (text : Option String)
  | array (items : List Value)
  | object (members : List (Option String × Value))

namespace Value

def text (s : String) : Value := string (some s)

def nat (n : Nat) : Value := number (toString n)

def texts (items : List String) : Value := array (items.map text)

def optional : Option String → Value
  | some s => text s
  | none => null

def record (members : List (String × Value)) : Value := object (members.map fun (k, v) => (some k, v))

end Value

def escapeChar (c : Char) : List Char :=
  match c with
  | '\x22' => ['\\', '\x22']
  | '\\' => ['\\', '\\']
  | '\n' => ['\\', 'n']
  | '\r' => ['\\', 'r']
  | '\t' => ['\\', 't']
  | '\x08' => ['\\', 'b']
  | '\x0c' => ['\\', 'f']
  | c =>
    if c.toNat < 0x20 then ['\\', 'u', '0', '0', hexDigit (c.toNat / 16), hexDigit (c.toNat % 16)] else [c]

def quote (s : String) : String := "\"" ++ String.ofList (s.toList.flatMap escapeChar) ++ "\""

def quoteText : Option String → String
  | some s => quote s
  | none => "null"

def indent (level : Nat) : String := String.ofList (List.replicate (2 * level) ' ')

/-- Lines between brackets, one level deeper than the brackets. -/
def bracketed (opening closing : String) (level : Nat) (items : List String) : String :=
  match items with
  | [] => opening ++ closing
  | items =>
    opening ++ "\n" ++ ",\n".intercalate (items.map (indent (level + 1) ++ ·)) ++ "\n" ++ indent level ++ closing

mutual

/-- The text of a value at a level of indentation. -/
def Value.render (level : Nat) : Value → String
  | .null => "null"
  | .bool b => if b then "true" else "false"
  | .number t => t
  | .string t => quoteText t
  | .array items => bracketed "[" "]" level (renderItems (level + 1) items)
  | .object members => bracketed "\x7b" "\x7d" level (renderMembers (level + 1) members)

def renderItems (level : Nat) : List Value → List String
  | [] => []
  | v :: vs => v.render level :: renderItems level vs

def renderMembers (level : Nat) : List (Option String × Value) → List String
  | [] => []
  | (k, v) :: rest => (quoteText k ++ ": " ++ v.render level) :: renderMembers level rest

end

end MockDialect.Json
