import MockDialect.Text.Span

namespace MockDialect.Text

def width : List Char → Nat
  | [] => 0
  | c :: cs => c.utf8Size + width cs

/-- Cut a text at a byte offset; `none` past the end or inside a character. -/
def split? : Nat → List Char → Option (List Char × List Char)
  | 0, cs => some ([], cs)
  | _ + 1, [] => none
  | n + 1, c :: cs =>
    if c.utf8Size ≤ n + 1 then
      (split? (n + 1 - c.utf8Size) cs).map fun (before, after) => (c :: before, after)
    else none

def isBoundary (cs : List Char) (offset : Nat) : Bool := (split? offset cs).isSome

/-- The characters of a range, if the range is in order and both its ends are boundaries. -/
def slice? (cs : List Char) (span : Span) : Option (List Char) :=
  if span.start ≤ span.stop then
    match split? span.start cs with
    | some (_, after) => (split? (span.stop - span.start) after).map Prod.fst
    | none => none
  else none

def slice (cs : List Char) (span : Span) : String := String.ofList ((slice? cs span).getD [])

@[simp] theorem width_nil : width [] = 0 := rfl

@[simp] theorem width_cons (c : Char) (cs : List Char) : width (c :: cs) = c.utf8Size + width cs := rfl

theorem width_append (xs ys : List Char) : width (xs ++ ys) = width xs + width ys := by
  induction xs with
  | nil => simp
  | cons c cs ih => simp [ih, Nat.add_assoc]

theorem split?_append (xs ys : List Char) : split? (width xs) (xs ++ ys) = some (xs, ys) := by
  induction xs with
  | nil => cases ys <;> rfl
  | cons c cs ih =>
    have hpos : 0 < c.utf8Size := Char.utf8Size_pos c
    obtain ⟨n, hn⟩ : ∃ n, c.utf8Size + width cs = n + 1 := ⟨c.utf8Size + width cs - 1, by omega⟩
    have hle : c.utf8Size ≤ n + 1 := by omega
    have hsub : n + 1 - c.utf8Size = width cs := by omega
    simp only [width_cons, hn, List.cons_append, split?, hle, if_true, hsub, ih, Option.map_some]

theorem eq_append_of_split? {n : Nat} {cs xs ys : List Char} (h : split? n cs = some (xs, ys)) :
    cs = xs ++ ys ∧ width xs = n := by
  induction cs generalizing n xs with
  | nil =>
    cases n with
    | zero => simp only [split?, Option.some.injEq, Prod.mk.injEq] at h; simp [← h.1, ← h.2]
    | succ n => simp [split?] at h
  | cons c cs ih =>
    cases n with
    | zero => simp only [split?, Option.some.injEq, Prod.mk.injEq] at h; simp [← h.1, ← h.2]
    | succ n =>
      simp only [split?] at h
      split at h
      · next hle =>
        obtain ⟨⟨b, a⟩, hs, he⟩ := Option.map_eq_some_iff.mp h
        simp only [Prod.mk.injEq] at he
        obtain ⟨rfl, rfl⟩ := he
        obtain ⟨rfl, hw⟩ := ih hs
        exact ⟨rfl, by simp only [width_cons, hw]; omega⟩
      · cases h

end MockDialect.Text
