import MockDialect.Text.Blank
import MockDialect.Text.Dotted

namespace MockDialect.Text

theorem dropWhile_eq_self {p : Char → Bool} {cs : List Char} (h : ∀ c ∈ cs, p c = false) : cs.dropWhile p = cs := by
  cases cs with
  | nil => rfl
  | cons c cs => exact List.dropWhile_cons_of_neg (Bool.eq_false_iff.mp (h c (.head _)))

theorem dropBlankEnd_eq_self {cs : List Char} (h : ∀ c ∈ cs, isBlank c = false) : dropBlankEnd cs = cs := by
  induction cs with
  | nil => rfl
  | cons c cs ih =>
    rw [dropBlankEnd, ih fun d hd => h d (.tail c hd)]
    cases cs with
    | nil => rw [h c (.head _)]; rfl
    | cons d cs => rfl

theorem dropBlankEnd_append {front back : List Char} (hback : dropBlankEnd back = back) (hne : back ≠ []) :
    dropBlankEnd (front ++ back) = front ++ back := by
  induction front with
  | nil => exact hback
  | cons c cs ih =>
    rw [List.cons_append, dropBlankEnd, ih]
    split
    · next hnil => exact absurd (List.append_eq_nil_iff.mp hnil).2 hne
    · rfl

/-- Between blanks in front and nothing behind, a text without white space is all that is left. -/
theorem trimChars_append {front cs : List Char} (hfront : ∀ c ∈ front, isBlank c = true)
    (h : ∀ c ∈ cs, isBlank c = false) : trimChars (front ++ cs) = cs := by
  have hdrop : (front ++ cs).dropWhile isBlank = cs.dropWhile isBlank := List.dropWhile_append_of_pos hfront
  rw [trimChars, hdrop, dropWhile_eq_self h, dropBlankEnd_eq_self h]

theorem dropLead?_append (lead rest : List Char) : dropLead? lead (lead ++ rest) = some rest := by
  simp [dropLead?]

end MockDialect.Text
