namespace MockDialect.Text.Lossy

/-- A character whose first bytes were read: the bits so far, how many bytes are still owed, and the
range that the next of them must lie in. -/
structure Pending where
  bits : Nat
  owed : Nat
  low : Nat
  high : Nat

def lead (b : Nat) : List (Option Char) × Option Pending :=
  if b < 0x80 then ([some (Char.ofNat b)], none)
  else if 0xC2 ≤ b ∧ b ≤ 0xDF then ([], some ⟨b - 0xC0, 1, 0x80, 0xBF⟩)
  else if b = 0xE0 then ([], some ⟨0, 2, 0xA0, 0xBF⟩)
  else if b = 0xED then ([], some ⟨0xD, 2, 0x80, 0x9F⟩)
  else if 0xE1 ≤ b ∧ b ≤ 0xEF then ([], some ⟨b - 0xE0, 2, 0x80, 0xBF⟩)
  else if b = 0xF0 then ([], some ⟨0, 3, 0x90, 0xBF⟩)
  else if 0xF1 ≤ b ∧ b ≤ 0xF3 then ([], some ⟨b - 0xF0, 3, 0x80, 0xBF⟩)
  else if b = 0xF4 then ([], some ⟨4, 3, 0x80, 0x8F⟩)
  else ([none], none)

def step : Option Pending → Nat → List (Option Char) × Option Pending
  | none, b => lead b
  | some p, b =>
    if p.low ≤ b ∧ b ≤ p.high then
      let bits := p.bits * 64 + (b - 0x80)
      if p.owed = 1 then ([some (Char.ofNat bits)], none) else ([], some ⟨bits, p.owed - 1, 0x80, 0xBF⟩)
    else
      let (out, next) := lead b
      (none :: out, next)

def decodeFrom : Option Pending → List UInt8 → List (Option Char)
  | none, [] => []
  | some _, [] => [none]
  | p, b :: bs =>
    let (out, next) := step p b.toNat
    out ++ decodeFrom next bs

def decode (bytes : List UInt8) : List (Option Char) := decodeFrom none bytes

def read (bytes : List UInt8) : String × Bool :=
  let chars := decode bytes
  (String.ofList (chars.map (·.getD (Char.ofNat 0xFFFD))), chars.any Option.isNone)

end MockDialect.Text.Lossy
