import MockDialect.Proofs.Java.Extent

namespace MockDialect.Java

open Text

namespace Lexeme

def chars (ls : List (Lexeme × List Char)) : List Char := (ls.map Prod.snd).flatten

@[simp] theorem chars_nil : chars [] = [] := rfl

@[simp] theorem chars_cons (l : Lexeme × List Char) (ls : List (Lexeme × List Char)) :
    chars (l :: ls) = l.2 ++ chars ls := rfl

@[simp] theorem chars_append (ls ms : List (Lexeme × List Char)) : chars (ls ++ ms) = chars ls ++ chars ms := by
  simp [chars]

/-- Every lexeme is the one at the head of what follows from it on. -/
def Cut : List (Lexeme × List Char) → Prop
  | [] => True
  | (l, cs) :: ls => next? (cs ++ chars ls) = some (l, cs, chars ls) ∧ Cut ls

theorem cut_spec {n : Nat} {cs : List Char} {ls : List (Lexeme × List Char)} (h : cut n cs = some ls) :
    Cut ls ∧ chars ls = cs := by
  refine ⟨?_, cut_flatten h⟩
  induction n generalizing cs ls with
  | zero =>
    cases cs with
    | nil =>
      obtain rfl := Option.some.inj h
      trivial
    | cons c cs => cases h
  | succ n ih =>
    cases cs with
    | nil =>
      obtain rfl := Option.some.inj h
      trivial
    | cons c cs =>
      rw [cut] at h
      split at h
      · cases h
      · next l taken rest hnext =>
        obtain ⟨more, hmore, rfl⟩ := Option.map_eq_some_iff.mp h
        have hchars : chars more = rest := cut_flatten hmore
        refine ⟨?_, ih hmore⟩
        rw [hchars, next?_append hnext]
        exact hnext
      · exact List.cons_ne_nil c cs

end Lexeme

/-- The tokens that a text is read as from some offset on. -/
def Remain (text : List Char) (ts : List Token) : Prop :=
  ∃ before ls trailing, text = before ++ Lexeme.chars ls ∧ Lexeme.Cut ls ∧
    Token.assemble (width before) [] ls = (ts, trailing)

variable {text : List Char} {ts rest : List Token} {xs : List Node}

theorem read_remain {trailing : List Node} (h : Token.read text = some (ts, trailing)) : Remain text ts := by
  unfold Token.read at h
  split at h
  · next c cs =>
    split at h
    · obtain ⟨ls, hcut, hassemble⟩ := Option.map_eq_some_iff.mp h
      obtain ⟨hls, hchars⟩ := Lexeme.cut_spec hcut
      exact ⟨[c], ls, trailing, by rw [hchars]; rfl, hls, by simpa [Token.assemble] using hassemble⟩
    · obtain ⟨ls, hcut, hassemble⟩ := Option.map_eq_some_iff.mp h
      obtain ⟨hls, hchars⟩ := Lexeme.cut_spec hcut
      exact ⟨[], ls, trailing, by rw [hchars]; rfl, hls, hassemble⟩
  · simp only [Option.some.injEq, Prod.mk.injEq] at h
    obtain ⟨rfl, rfl⟩ := h
    exact ⟨[], [], [], rfl, trivial, rfl⟩

theorem assemble_cons {offset : Nat} {comments trailing : List Node} {ls : List (Lexeme × List Char)} {t : Token}
    (h : Token.assemble offset comments ls = (t :: ts, trailing)) :
    ∃ lead behind, ls = lead ++ (t.lexeme, t.text.toList) :: behind ∧
      Token.assemble (offset + width (Lexeme.chars lead) + width t.text.toList) [] behind = (ts, trailing) := by
  induction ls generalizing offset comments with
  | nil =>
    simp only [Token.assemble, Prod.mk.injEq] at h
    cases h.1
  | cons l ls ih =>
    obtain ⟨l, cs⟩ := l
    have hskip {comments : List Node}
        (h : Token.assemble (offset + width cs) comments ls = (t :: ts, trailing)) :
        ∃ lead behind, (l, cs) :: ls = lead ++ (t.lexeme, t.text.toList) :: behind ∧
          Token.assemble (offset + width (Lexeme.chars lead) + width t.text.toList) [] behind = (ts, trailing) := by
      obtain ⟨lead, behind, rfl, hbehind⟩ := ih h
      refine ⟨(l, cs) :: lead, behind, rfl, ?_⟩
      rwa [Lexeme.chars_cons, width_append, ← Nat.add_assoc]
    cases l with
    | blank | lineComment | blockComment =>
      simp only [Token.assemble] at h
      exact hskip h
    | word | number | character | string | symbol =>
      simp only [Token.assemble, Prod.mk.injEq, List.cons.injEq] at h
      obtain ⟨⟨rfl, rfl⟩, rfl⟩ := h
      exact ⟨[], ls, by simp, by simp⟩

theorem Lexeme.Cut.drop {lead ls : List (Lexeme × List Char)} (h : Lexeme.Cut (lead ++ ls)) : Lexeme.Cut ls := by
  induction lead with
  | nil => exact h
  | cons l lead ih => exact ih h.2

theorem Remain.tail {t : Token} (h : Remain text (t :: ts)) : Remain text ts := by
  obtain ⟨before, ls, trailing, htext, hcut, hassemble⟩ := h
  obtain ⟨lead, behind, rfl, hbehind⟩ := assemble_cons hassemble
  refine ⟨before ++ Lexeme.chars lead ++ t.text.toList, behind, trailing, ?_, hcut.drop.2, ?_⟩
  · rw [htext, Lexeme.chars_append, Lexeme.chars_cons]
    simp
  · rw [width_append, width_append]
    exact hbehind

theorem Lexeme.tagged_eq {l m : Lexeme} {lead taken rest : List Char} {found : Option (List Char × List Char)}
    (h : tagged l lead found = some (m, taken, rest)) :
    m = l ∧ ∃ part, found = some (part, rest) ∧ taken = lead ++ part := by
  cases found with
  | none => cases h
  | some p =>
    simp only [tagged, Option.some.injEq, Prod.mk.injEq] at h
    obtain ⟨rfl, rfl, rfl⟩ := h
    exact ⟨rfl, p.1, rfl, rfl⟩

theorem Lexeme.mem_symbols {cs taken rest : List Char} (h : next? cs = some (.symbol, taken, rest)) :
    ∃ s ∈ symbols, taken = s.toList := by
  unfold next? at h
  split at h
  · cases h
  · cases h
  · cases (tagged_eq h).1
  · cases (tagged_eq h).1
  · cases (tagged_eq h).1
  · cases h
  · cases (tagged_eq h).1
  · split at h
    · cases h
    · split at h
      · cases h
      · split at h
        · cases (tagged_eq h).1
        · obtain ⟨-, part, hfound, rfl⟩ := tagged_eq h
          obtain ⟨s, hs, he⟩ := Option.map_eq_some_iff.mp hfound
          exact ⟨s, List.mem_of_find?_eq_some hs, (congrArg Prod.fst he).symm⟩

theorem Remain.mem_symbols {t : Token} (h : Remain text (t :: ts)) (hsymbol : t.lexeme = .symbol) :
    t.text ∈ Lexeme.symbols := by
  obtain ⟨before, ls, trailing, -, hcut, hassemble⟩ := h
  obtain ⟨lead, behind, rfl, -⟩ := assemble_cons hassemble
  obtain ⟨hnext, -⟩ := hcut.drop
  rw [hsymbol] at hnext
  obtain ⟨s, hs, htext⟩ := Lexeme.mem_symbols hnext
  rwa [String.toList_inj.mp htext]

/-- What is left of the tokens of a text: all of the first token, or what a closing bracket has left of it. -/
inductive Leftover (text : List Char) : List Token → Prop where
  | whole {ts : List Token} (h : Remain text ts) : Leftover text ts
  | split {t : Token} {ts : List Token} {s : String} {front : List Char} (hs : s ∈ Lexeme.symbols)
      (hsymbol : t.lexeme = .symbol) (hcut : s.toList = '>' :: front ++ t.text.toList) (h : Remain text ts) :
      Leftover text (t :: ts)

theorem Leftover.tail {t : Token} (h : Leftover text (t :: ts)) : Remain text ts := by
  cases h with
  | whole h => exact h.tail
  | split _ _ _ h => exact h

theorem closeAngle?_leftover (h : Token.closeAngle? ts = some (xs, rest)) (hts : Leftover text ts) :
    Leftover text rest := by
  cases ts with
  | nil => cases h
  | cons t ts =>
    simp only [Token.closeAngle?] at h
    split at h
    · simp only [Option.some.injEq, Prod.mk.injEq] at h
      obtain ⟨-, rfl⟩ := h
      exact .whole hts.tail
    · next cs hlonger hsymbol htext =>
      simp only [Option.some.injEq, Prod.mk.injEq] at h
      obtain ⟨-, rfl⟩ := h
      cases hts with
      | whole hts =>
        refine @Leftover.split text _ _ _ [] (hts.mem_symbols hsymbol) hsymbol ?_ hts.tail
        rw [htext, String.toList_ofList]
        rfl
      | @split _ _ s front hs _ hcut hts =>
        refine @Leftover.split text _ _ s (front ++ ['>']) hs hsymbol ?_ hts
        rw [hcut, htext, String.toList_ofList]
        simp
    · cases h

theorem Reads.leftover {grammar : Phrase → Rule} {rule : Rule} (h : Reads grammar rule ts xs rest)
    (hts : Leftover text ts) : Leftover text rest := by
  induction h with
  | empty | done | ahead | absent => exact hts
  | token _ => exact .whole hts.tail
  | closeAngle hc => exact closeAngle?_leftover hc hts
  | seq _ _ ih₁ ih₂ | more _ _ ih₁ ih₂ | suffix _ _ _ ih₁ ih₂ => exact ih₂ (ih₁ hts)
  | left _ ih | right _ ih | operand _ ih | choose _ ih | phrase _ ih | node _ _ ih | role _ ih => exact ih hts

/-- Tokens in the course of reading a text. -/
structure Stream (text : List Char) (ts : List Token) : Prop where
  lined : ∃ lo hi, Lined text lo ts hi
  solid : ∀ t ∈ ts, t.Solid
  left : Leftover text ts

theorem read_stream {trailing : List Node} (h : Token.read text = some (ts, trailing)) : Stream text ts := by
  obtain ⟨mid, hlined, -⟩ := read_lined h
  exact ⟨⟨0, mid, hlined⟩, (read_solid h).1, .whole (read_remain h)⟩

theorem Reads.stream {grammar : Phrase → Rule} {rule : Rule} (h : Reads grammar rule ts xs rest)
    (hts : Stream text ts) : Stream text rest := by
  obtain ⟨lo, hi, hlined⟩ := hts.lined
  obtain ⟨mid, -, hrest⟩ := h.laid hlined
  exact ⟨⟨mid, hi, hrest⟩, (h.solid hlined hts.solid).2, h.leftover hts.left⟩

end MockDialect.Java

namespace MockDialect.Source

open Java

theorem File.all_of_parse? {source : String} {P : Node → Prop}
    (hparse : ∀ tree, parse? source.toList = some tree → ∀ n ∈ tree.children, n.All P) {c : Cursor}
    (h : Cursor.In (File.read source).tree c) (hkind : c.kind ≠ .program) : c.node.All P := by
  have hprogram := (File.read_sound source).program
  obtain ⟨tree, broken, htree, he⟩ := File.read_eq source
  rw [he] at h hprogram
  rcases h.within.cases_child with hroot | ⟨m, hm, hwithin⟩
  · rw [Cursor.kind, hroot] at hkind
    exact absurd hprogram hkind
  · rcases htree with htree | rfl
    · exact hwithin.all (hparse tree htree m hm)
    · cases hm

end MockDialect.Source
