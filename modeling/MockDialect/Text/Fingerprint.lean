namespace MockDialect.Text.Fingerprint

def seed : UInt64 := 0xcbf29ce484222325

def multiplier : UInt64 := 0x100000001B3

/-- Take one more byte in. The multiplier is odd, so no byte is ever forgotten. -/
def absorb (hash : UInt64) (byte : UInt8) : UInt64 := (hash ^^^ byte.toUInt64) * multiplier

def ofBytes (bytes : List UInt8) : UInt64 := bytes.foldl absorb seed

def ofParts (parts : List (List UInt8)) : UInt64 :=
  parts.foldl (fun hash part => part.foldl absorb hash) seed

def ofText (text : String) : UInt64 := ofBytes text.toUTF8.toList

def hex (hash : UInt64) : String :=
  let digits := Nat.toDigits 16 hash.toNat
  String.ofList (List.replicate (16 - digits.length) '0' ++ digits)

theorem ofParts_eq_ofBytes (parts : List (List UInt8)) : ofParts parts = ofBytes parts.flatten := by
  have h : ∀ hash : UInt64, parts.foldl (fun hash part => part.foldl absorb hash) hash =
      parts.flatten.foldl absorb hash := by
    induction parts with
    | nil => intro hash; rfl
    | cons part parts ih => intro hash; simp only [List.foldl_cons, ih, List.flatten_cons, List.foldl_append]
  exact h seed

end MockDialect.Text.Fingerprint
