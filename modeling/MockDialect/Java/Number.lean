namespace MockDialect.Java.Number

def isHexDigit (c : Char) : Bool := c.isDigit || ('a' ≤ c && c ≤ 'f') || ('A' ≤ c && c ≤ 'F')

def isOneOf (marks : List Char) (c : Char) : Bool := marks.contains c

/-- Digits with single underscores anywhere but first. -/
def dropDigits? (isDigit : Char → Bool) : List Char → Option (List Char)
  | [] => none
  | c :: cs => if isDigit c then some (cs.dropWhile fun d => isDigit d || d == '_') else none

def endsWithin (marks : List Char) : List Char → Bool
  | [] => true
  | [c] => isOneOf marks c
  | _ => false

def isFloatEnd (exponent suffix : List Char) : List Char → Bool
  | [] => true
  | c :: cs =>
    if isOneOf exponent c then
      let digits := match cs with
        | d :: ds => if d == '+' || d == '-' then ds else d :: ds
        | [] => []
      match dropDigits? Char.isDigit digits with
      | some rest => endsWithin suffix rest
      | none => false
    else cs.isEmpty && isOneOf suffix c

def isDecimal (cs : List Char) : Bool :=
  let float := isFloatEnd ['e', 'E'] ['f', 'F', 'd', 'D']
  match dropDigits? Char.isDigit cs with
  | some ('.' :: rest) => float ((dropDigits? Char.isDigit rest).getD rest)
  | some rest => endsWithin ['l', 'L'] rest || float rest
  | none =>
    match cs with
    | '.' :: rest => (dropDigits? Char.isDigit rest).any float
    | _ => false

def isHexadecimal (cs : List Char) : Bool :=
  let float : List Char → Bool := fun rest =>
    match rest with
    | c :: _ => isOneOf ['p', 'P'] c && isFloatEnd ['p', 'P'] ['f', 'F', 'd', 'D'] rest
    | [] => false
  match dropDigits? isHexDigit cs with
  | some ('.' :: rest) => float ((dropDigits? isHexDigit rest).getD rest)
  | some rest => endsWithin ['l', 'L'] rest || float rest
  | none =>
    match cs with
    | '.' :: rest => (dropDigits? isHexDigit rest).any float
    | _ => false

def isNumber : List Char → Bool
  | '0' :: x :: rest =>
    if x == 'x' || x == 'X' then isHexadecimal rest
    else if x == 'b' || x == 'B' then
      (dropDigits? (fun c => c == '0' || c == '1') rest).any (endsWithin ['l', 'L'])
    else isDecimal ('0' :: x :: rest)
  | cs => isDecimal cs

end MockDialect.Java.Number
