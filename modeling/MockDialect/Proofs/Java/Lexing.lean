import MockDialect.Java.Lexeme

namespace MockDialect.Java.Lexeme

open Text

theorem throughStarSlash_append {cs taken rest : List Char} (h : throughStarSlash cs = some (taken, rest)) :
    taken ++ rest = cs := by
  fun_induction throughStarSlash cs generalizing taken with
  | case1 => cases h
  | case2 rest' => grind
  | case3 c cs _ ih =>
    obtain ⟨⟨t, r⟩, ht, he⟩ := Option.map_eq_some_iff.mp h
    simp only [Prod.mk.injEq] at he
    obtain ⟨rfl, rfl⟩ := he
    simp [ih ht]

theorem throughQuote_append {cs taken rest : List Char} (h : throughQuote cs = some (taken, rest)) :
    taken ++ rest = cs := by
  fun_induction throughQuote cs generalizing taken with
  | case1 => cases h
  | case2 rest' => grind
  | case3 c cs ih | case4 c cs _ _ ih =>
    obtain ⟨⟨t, r⟩, ht, he⟩ := Option.map_eq_some_iff.mp h
    simp only [Prod.mk.injEq] at he
    obtain ⟨rfl, rfl⟩ := he
    simp [ih ht]

theorem throughTripleQuote_append {cs taken rest : List Char}
    (h : throughTripleQuote cs = some (taken, rest)) : taken ++ rest = cs := by
  fun_induction throughTripleQuote cs generalizing taken with
  | case1 => cases h
  | case2 rest' => grind
  | case3 c cs ih | case4 c cs _ _ ih =>
    obtain ⟨⟨t, r⟩, ht, he⟩ := Option.map_eq_some_iff.mp h
    simp only [Prod.mk.injEq] at he
    obtain ⟨rfl, rfl⟩ := he
    simp [ih ht]

theorem throughApostrophe_append {cs taken rest : List Char}
    (h : throughApostrophe cs = some (taken, rest)) : taken ++ rest = cs := by
  fun_induction throughApostrophe cs generalizing taken with
  | case1 => cases h
  | case2 rest' => grind
  | case3 c cs ih | case5 c cs _ _ _ ih =>
    obtain ⟨⟨t, r⟩, ht, he⟩ := Option.map_eq_some_iff.mp h
    simp only [Prod.mk.injEq] at he
    obtain ⟨rfl, rfl⟩ := he
    simp [ih ht]
  | case4 => cases h

theorem number?_append {c : Char} {cs taken rest : List Char} (h : number? c cs = some (taken, rest)) :
    taken ++ rest = cs := by
  obtain ⟨n, -, he⟩ := Option.map_eq_some_iff.mp h
  simp only [Prod.mk.injEq] at he
  obtain ⟨rfl, rfl⟩ := he
  exact List.take_append_drop n cs

theorem symbol?_append {cs taken rest : List Char} (h : symbol? cs = some (taken, rest)) :
    taken ++ rest = cs := by
  obtain ⟨s, hs, he⟩ := Option.map_eq_some_iff.mp h
  have hp := List.find?_some hs
  simp only [Prod.mk.injEq] at he
  obtain ⟨rfl, rfl⟩ := he
  obtain ⟨t, rfl⟩ := List.isPrefixOf_iff_prefix.mp hp
  rw [← String.length_toList, List.drop_left]

theorem tagged_append {l m : Lexeme} {lead cs taken rest : List Char} {found : Option (List Char × List Char)}
    (hf : ∀ {t r : List Char}, found = some (t, r) → t ++ r = cs)
    (h : tagged l lead found = some (m, taken, rest)) : taken ++ rest = lead ++ cs := by
  cases found with
  | none => cases h
  | some p =>
    simp only [tagged, Option.some.injEq, Prod.mk.injEq] at h
    obtain ⟨-, rfl, rfl⟩ := h
    rw [List.append_assoc, hf rfl]

theorem next?_append {cs taken rest : List Char} {l : Lexeme} (h : next? cs = some (l, taken, rest)) :
    taken ++ rest = cs := by
  unfold next? at h
  split at h
  · cases h
  · simp only [Option.some.injEq, Prod.mk.injEq] at h
    obtain ⟨-, rfl, rfl⟩ := h
    simp only [List.cons_append, List.takeWhile_append_dropWhile]
  · exact tagged_append throughStarSlash_append h
  · exact tagged_append throughTripleQuote_append h
  · exact tagged_append throughQuote_append h
  · cases h
  · exact tagged_append throughApostrophe_append h
  · next c cs _ _ _ _ _ _ =>
    split at h
    · simp only [Option.some.injEq, Prod.mk.injEq] at h
      obtain ⟨-, rfl, rfl⟩ := h
      rw [List.cons_append, List.takeWhile_append_dropWhile]
    · split at h
      · simp only [Option.some.injEq, Prod.mk.injEq] at h
        obtain ⟨-, rfl, rfl⟩ := h
        rw [List.cons_append, List.takeWhile_append_dropWhile]
      · split at h
        · exact tagged_append number?_append h
        · exact tagged_append symbol?_append h

theorem cut_flatten {n : Nat} {cs : List Char} {ls : List (Lexeme × List Char)} (h : cut n cs = some ls) :
    (ls.map Prod.snd).flatten = cs := by
  induction n generalizing cs ls with
  | zero =>
    cases cs with
    | nil => simp only [cut, Option.some.injEq] at h; simp [← h]
    | cons c cs => cases h
  | succ n ih =>
    cases cs with
    | nil => simp only [cut, Option.some.injEq] at h; simp [← h]
    | cons c cs =>
      rw [cut] at h
      split at h
      · cases h
      · next l taken rest hn =>
        obtain ⟨ms, hm, rfl⟩ := Option.map_eq_some_iff.mp h
        rw [List.map_cons, List.flatten_cons, ih hm, next?_append hn]
      · simp

theorem forall_of_cut {P : Lexeme → List Char → Prop}
    (hnext : ∀ {cs taken rest : List Char} {l : Lexeme}, next? cs = some (l, taken, rest) → P l taken) {n : Nat}
    {cs : List Char} {ls : List (Lexeme × List Char)} (h : cut n cs = some ls) : ∀ l ∈ ls, P l.1 l.2 := by
  induction n generalizing cs ls with
  | zero =>
    cases cs with
    | nil =>
      obtain rfl := Option.some.inj h
      exact nofun
    | cons c cs => cases h
  | succ n ih =>
    cases cs with
    | nil =>
      obtain rfl := Option.some.inj h
      exact nofun
    | cons c cs =>
      rw [cut] at h
      split at h
      · cases h
      · next l taken rest htaken =>
        obtain ⟨more, hmore, rfl⟩ := Option.map_eq_some_iff.mp h
        exact List.forall_mem_cons.mpr ⟨hnext htaken, ih hmore⟩
      · exact nofun

end MockDialect.Java.Lexeme
