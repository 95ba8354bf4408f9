namespace MockDialect.Order

def insertBy {α : Type} (precedes : α → α → Bool) (a : α) : List α → List α
  | [] => [a]
  | b :: rest => if precedes a b then a :: b :: rest else b :: insertBy precedes a rest

def sortBy {α : Type} (precedes : α → α → Bool) (xs : List α) : List α :=
  xs.foldr (insertBy precedes) []

/-- Put a name in its place, unless it is there already. -/
def insertName (a : String) : List String → List String
  | [] => [a]
  | b :: rest => if a = b then b :: rest else if a < b then a :: b :: rest else b :: insertName a rest

def sortNames (names : List String) : List String := names.foldr insertName []

theorem insertBy_perm {α : Type} (precedes : α → α → Bool) (a : α) (xs : List α) :
    (insertBy precedes a xs).Perm (a :: xs) := by
  induction xs with
  | nil => exact .refl _
  | cons b rest ih =>
    rw [insertBy]
    split
    · exact .refl _
    · exact (ih.cons b).trans (.swap a b rest)

theorem sortBy_perm {α : Type} (precedes : α → α → Bool) (xs : List α) :
    (sortBy precedes xs).Perm xs := by
  induction xs with
  | nil => exact .refl _
  | cons a xs ih => exact (insertBy_perm precedes a _).trans (ih.cons a)

theorem mem_insertName {a b : String} {names : List String} :
    a ∈ insertName b names ↔ a = b ∨ a ∈ names := by
  induction names with
  | nil => simp [insertName]
  | cons c rest ih =>
    rw [insertName]
    split
    next h => simp [h]
    next =>
      split
      · simp
      · simp only [List.mem_cons, ih]
        exact or_left_comm

theorem mem_sortNames {a : String} {names : List String} : a ∈ sortNames names ↔ a ∈ names := by
  induction names with
  | nil => exact .rfl
  | cons b rest ih => exact mem_insertName.trans (by rw [List.mem_cons, ← ih]; exact .rfl)

end MockDialect.Order
