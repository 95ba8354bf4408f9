import MockDialect.Conversion.Declaration
import Mathlib.Data.List.Induction
import Mathlib.Data.List.Nodup
import Mathlib.Data.List.Perm.Subperm

namespace MockDialect.Conversion

open Java Source

theorem toString_injective {m n : Nat} (h : toString m = toString n) : m = n := by
  have hdigits : Nat.toDigits 10 m = Nat.toDigits 10 n := by
    rw [← Nat.toList_repr, ← Nat.toList_repr]
    exact congrArg String.toList h
  rw [← Nat.ofDigitChars_ten_toDigits (n := m), hdigits, Nat.ofDigitChars_ten_toDigits]

theorem exists_free {taken : List String} {base : String} (h : base ∈ taken) :
    ∃ n ∈ List.range' 2 taken.length, base ++ toString n ∉ taken := by
  by_contra hnone
  push Not at hnone
  have hbase (n : Nat) : base ++ toString n ≠ base := by
    intro hn
    have hempty : (toString n).toList = [] := by simpa using congrArg String.toList hn
    exact Nat.toDigits_ne_nil (by rwa [← Nat.toList_repr])
  have hnodup : (base :: (List.range' 2 taken.length).map fun n => base ++ toString n).Nodup := by
    refine List.nodup_cons.mpr ⟨?_, List.Nodup.map (fun m n h => toString_injective ?_) List.nodup_range'⟩
    · intro hmem
      obtain ⟨n, -, hn⟩ := List.mem_map.mp hmem
      exact hbase n hn
    · exact (String.append_right_inj base).mp h
  have hsubset : base :: (List.range' 2 taken.length).map (fun n => base ++ toString n) ⊆ taken := by
    refine List.cons_subset.mpr ⟨h, fun name hname => ?_⟩
    obtain ⟨n, hn, rfl⟩ := List.mem_map.mp hname
    exact hnone n hn
  have hlength := (List.subperm_of_subset hnodup hsubset).length_le
  rw [List.length_cons, List.length_map, List.length_range'] at hlength
  omega

/-- A search for a free number that goes up one by one from a number and knows no bound: where it ends. -/
inductive SearchEnds (taken : List String) (base : String) : Nat → Nat → Prop where
  | free {n : Nat} (hfree : base ++ toString n ∉ taken) : SearchEnds taken base n n
  | next {n m : Nat} (htaken : base ++ toString n ∈ taken) (h : SearchEnds taken base (n + 1) m) :
      SearchEnds taken base n m

theorem searchEnds_iff {taken : List String} {base : String} {n m : Nat} : SearchEnds taken base n m ↔
    n ≤ m ∧ base ++ toString m ∉ taken ∧ ∀ k, n ≤ k → k < m → base ++ toString k ∈ taken := by
  constructor
  · intro h
    induction h with
    | free hfree => exact ⟨Nat.le_refl _, hfree, fun k hle hlt => absurd hle (Nat.not_le.mpr hlt)⟩
    | @next n m htaken _ ih =>
      obtain ⟨hle, hfree, hbelow⟩ := ih
      refine ⟨Nat.le_of_succ_le hle, hfree, fun k hk hlt => ?_⟩
      rcases Nat.eq_or_lt_of_le hk with rfl | hk
      · exact htaken
      · exact hbelow k hk hlt
  · rintro ⟨hle, hfree, hbelow⟩
    -- on the number of steps that are left
    obtain ⟨steps, rfl⟩ := Nat.exists_eq_add_of_le hle
    induction steps generalizing n with
    | zero => exact .free hfree
    | succ steps ih =>
      rw [show n + (steps + 1) = n + 1 + steps by omega] at hfree hbelow ⊢
      exact .next (hbelow n (Nat.le_refl n) (by omega)) (ih (by omega) hfree fun k hk => hbelow k (by omega))

theorem freshName_of_mem {taken : List String} {base : String} (h : base ∈ taken) :
    ∃ n, SearchEnds taken base 2 n ∧ n ≤ taken.length + 1 ∧ freshName taken base = base ++ toString n := by
  have hpos : 0 < taken.length := List.length_pos_of_mem h
  rw [freshName, if_pos (List.contains_iff_mem.mpr h)]
  dsimp only
  cases hfound : (List.range' 2 (taken.length - 1)).find? fun n => !taken.contains (base ++ toString n) with
  | none =>
    have hbelow (k : Nat) (hk : 2 ≤ k) (hlt : k < taken.length + 1) : base ++ toString k ∈ taken := by
      have hk := List.find?_eq_none.mp hfound k (List.mem_range'_1.mpr (by omega))
      simpa using hk
    obtain ⟨n, hn, hfree⟩ := exists_free h
    rw [List.mem_range'_1] at hn
    -- all numbers before the last one are taken
    obtain rfl : n = taken.length + 1 := by
      by_contra hne
      exact hfree (hbelow n hn.1 (by omega))
    exact ⟨taken.length + 1, searchEnds_iff.mpr ⟨hn.1, hfree, hbelow⟩, Nat.le_refl _, rfl⟩
  | some n =>
    obtain ⟨hfree, hn, hbelow⟩ := List.find?_range'_eq_some.mp hfound
    rw [List.mem_range'_1] at hn
    simp only [Bool.not_eq_true', List.contains_eq_mem, decide_eq_false_iff_not, Bool.not_not,
      decide_eq_true_eq] at hfree hbelow
    exact ⟨n, searchEnds_iff.mpr ⟨hn.1, hfree, hbelow⟩, by omega, rfl⟩

theorem freshName_of_not_mem {taken : List String} {base : String} (h : base ∉ taken) : freshName taken base = base :=
  if_neg (mt List.contains_iff_mem.mp h)

theorem freshName_cases (taken : List String) (base : String) :
    base ∉ taken ∧ freshName taken base = base ∨
      base ∈ taken ∧ ∃ n : Nat, freshName taken base = base ++ toString n ∧ base ++ toString n ∉ taken := by
  by_cases hbase : base ∈ taken
  · obtain ⟨n, hends, -, hname⟩ := freshName_of_mem hbase
    exact .inr ⟨hbase, n, hname, (searchEnds_iff.mp hends).2.1⟩
  · exact .inl ⟨hbase, freshName_of_not_mem hbase⟩

theorem freshName_not_mem (taken : List String) (base : String) : freshName taken base ∉ taken := by
  rcases freshName_cases taken base with ⟨hfree, hname⟩ | ⟨-, n, hname, hfree⟩
  · rwa [hname]
  · rwa [hname]

theorem checkVariableName_eq_ok_iff {name : String} :
    checkVariableName name = .ok () ↔ isAsciiName name = true ∧ isReserved name = false ∧ name ≠ "var" := by
  unfold checkVariableName
  cases isAsciiName name <;> cases isReserved name <;> by_cases hvar : name = "var" <;> simp [hvar]

theorem isAsciiNameStart_of_isDigit {c : Char} (h : c.isDigit = true) : isAsciiNameStart c = false := by
  have hall : ∀ n < 128, (Char.ofNat n).isDigit = true → isAsciiNameStart (Char.ofNat n) = false := by decide
  have hascii : c.toNat < 128 := by
    simp only [Char.isDigit, Bool.and_eq_true, decide_eq_true_eq, UInt32.le_iff_toNat_le] at h
    exact Nat.lt_of_le_of_lt h.2 (by decide)
  have hc := hall c.toNat hascii
  rw [Char.ofNat_toNat] at hc
  exact hc h

theorem digits_of_toString (n : Nat) :
    (∀ c ∈ (toString n).toList, c.isDigit = true) ∧ (toString n).toList ≠ [] := by
  have hdigits : (toString n).toList = Nat.toDigits 10 n := Nat.toList_repr
  rw [hdigits]
  exact ⟨fun c => Nat.isDigit_of_mem_toDigits (by decide) (by decide), Nat.toDigits_ne_nil⟩

/-- Digits can stand in a name but not at its head. -/
theorem isAsciiName_append_toString (base : String) (n : Nat) :
    isAsciiName (base ++ toString n) = isAsciiName base := by
  obtain ⟨hdigit, hne⟩ := digits_of_toString n
  have hrest : (toString n).toList.all isAsciiNameRest = true := by
    refine List.all_eq_true.mpr fun c hc => ?_
    simp [isAsciiNameRest, Char.isAlphanum, hdigit c hc]
  rw [isAsciiName, isAsciiName, String.toList_append]
  cases hbase : base.toList with
  | nil =>
    obtain ⟨c, cs, hcs⟩ := List.exists_cons_of_ne_nil hne
    have hstart := isAsciiNameStart_of_isDigit (hdigit c (hcs ▸ .head cs))
    rw [List.nil_append, hcs]
    simp [hstart]
  | cons c cs => simp only [List.cons_append, List.all_append, hrest, Bool.and_true]

theorem not_reserved_append_toString (base : String) (n : Nat) :
    isReserved (base ++ toString n) = false ∧ base ++ toString n ≠ "var" := by
  have hwords : ∀ word ∈ "var" :: reservedWords, word.toList.all (!·.isDigit) = true := by decide +kernel
  have hnew : base ++ toString n ∉ "var" :: reservedWords := by
    intro hmem
    obtain ⟨hdigit, hne⟩ := digits_of_toString n
    obtain ⟨c, hc⟩ := List.exists_mem_of_ne_nil _ hne
    have hword := List.all_eq_true.mp (hwords _ hmem) c (by rw [String.toList_append]; exact List.mem_append_right _ hc)
    rw [hdigit c hc] at hword
    cases hword
  obtain ⟨hvar, hreserved⟩ := List.ne_and_not_mem_of_not_mem_cons hnew
  exact ⟨by simpa [isReserved] using hreserved, hvar⟩

theorem checkVariableName_freshName_iff (taken : List String) (base : String) :
    checkVariableName (freshName taken base) = .ok () ↔
      isAsciiName base = true ∧ (base ∈ taken ∨ isReserved base = false ∧ base ≠ "var") := by
  rw [checkVariableName_eq_ok_iff]
  rcases freshName_cases taken base with ⟨hfree, hname⟩ | ⟨htaken, n, hname, -⟩
  · rw [hname]
    exact ⟨fun h => ⟨h.1, .inr h.2⟩, fun h => ⟨h.1, h.2.resolve_left hfree⟩⟩
  · rw [hname, isAsciiName_append_toString]
    exact ⟨fun h => ⟨h.1, .inl htaken⟩, fun h => ⟨h.1, not_reserved_append_toString base n⟩⟩

theorem mem_identifiers_iff {source name : String} : name ∈ (File.read source).identifiers ↔
    ∃ c ∈ (File.read source).cursors, c.kind = .identifier ∧ (File.read source).spell c.node = name := by
  unfold File.read
  dsimp only
  split
  all_goals
    change name ∈ Order.sortNames _ ↔ _
    rw [Order.mem_sortNames, List.mem_map]
    simp only [List.mem_filter, beq_iff_eq, and_assoc]
    rfl

/-- The search for a number ends, whatever a file spells, and the name it makes is new to the file, has the least
number that makes it so and can name a variable if the base can. -/
theorem fresh_name_least_free (source base : String) :
    (∀ x, x ∈ (File.read source).identifiers ↔
      ∃ c ∈ (File.read source).cursors, c.kind = .identifier ∧ (File.read source).spell c.node = x) ∧
    let f := File.read source
    let name := freshName f.identifiers base
    name ∉ f.identifiers ∧
    (base ∉ f.identifiers → name = base) ∧
    (base ∈ f.identifiers → ∃ n, SearchEnds f.identifiers base 2 n ∧ n ≤ f.identifiers.length + 2 ∧
      name = base ++ toString n ∧ 2 ≤ n ∧ base ++ toString n ∉ f.identifiers ∧
      ∀ k, 2 ≤ k → k < n → base ++ toString k ∈ f.identifiers) ∧
    (checkVariableName base = .ok () → checkVariableName name = .ok ()) := by
  refine ⟨fun x => mem_identifiers_iff, freshName_not_mem _ _, freshName_of_not_mem, fun htaken => ?_, fun hbase => ?_⟩
  · obtain ⟨n, hends, hbound, hname⟩ := freshName_of_mem htaken
    exact ⟨n, hends, Nat.le_succ_of_le hbound, hname, searchEnds_iff.mp hends⟩
  · obtain ⟨hform, hword⟩ := checkVariableName_eq_ok_iff.mp hbase
    exact (checkVariableName_freshName_iff _ _).mpr ⟨hform, .inr hword⟩

theorem fresh_name_least_free_third :
    let f := File.read "class T\x7bint a,a2;\x7d"
    "a" ∈ f.identifiers ∧ "b" ∉ f.identifiers ∧ checkVariableName "a" = .ok () ∧
      freshName f.identifiers "b" = "b" ∧ "a3" ∉ f.identifiers ∧ checkVariableName "a3" = .ok () ∧
      ∃ n, SearchEnds f.identifiers "a" 2 n ∧ "a3" = "a" ++ toString n ∧
        ∀ k, 2 ≤ k → k < n → "a" ++ toString k ∈ f.identifiers := by
  generalize hfile : File.read _ = f
  dsimp only
  have hcomputed : f.identifiers = ["T", "a", "a2"] := by
    subst hfile
    decide +kernel
  have hname : freshName f.identifiers "a" = "a3" := by
    rw [hcomputed]
    decide +kernel
  have htaken : "a" ∈ f.identifiers := by simp [hcomputed]
  have hfree : "b" ∉ f.identifiers := by simp [hcomputed]
  have hlegal : checkVariableName "a" = .ok () := checkVariableName_eq_ok_iff.mpr (by decide +kernel)
  subst hfile
  obtain ⟨-, hnew, -, hends, hchecked⟩ := fresh_name_least_free "class T\x7bint a,a2;\x7d" "a"
  rw [hname] at hnew hends hchecked
  obtain ⟨n, hsearch, -, hn, -, -, hbelow⟩ := hends htaken
  exact ⟨htaken, hfree, hlegal, (fresh_name_least_free _ "b").2.2.1 hfree, hnew, hchecked hlegal, n, hsearch, hn, hbelow⟩

variable {items : List String} {item : String}

theorem unique_concat (items : List String) (item : String) :
    unique (items ++ [item]) = if item ∈ unique items then unique items else unique items ++ [item] := by
  simp [unique, List.foldl_append]

theorem mem_unique (item : String) : item ∈ unique items ↔ item ∈ items := by
  induction items using List.reverseRecOn with
  | nil => rfl
  | append_singleton items last ih =>
    rw [unique_concat, List.mem_append, List.mem_singleton]
    split
    case isTrue hlast =>
      rw [ih]
      refine ⟨.inl, fun h => h.elim id ?_⟩
      rintro rfl
      exact ih.mp hlast
    case isFalse => rw [List.mem_append, List.mem_singleton, ih]

theorem unique_pairwise (items : List String) :
    (unique items).Pairwise fun a b => items.idxOf a < items.idxOf b := by
  induction items using List.reverseRecOn with
  | nil => exact .nil
  | append_singleton items last ih =>
    -- what occurs among the earlier items is found where it was found before
    have hearlier : (unique items).Pairwise fun a b => (items ++ [last]).idxOf a < (items ++ [last]).idxOf b := by
      refine ih.imp_of_mem fun ha hb hab => ?_
      rwa [List.idxOf_append_of_mem ((mem_unique _).mp ha), List.idxOf_append_of_mem ((mem_unique _).mp hb)]
    rw [unique_concat]
    split
    case isTrue => exact hearlier
    case isFalse hlast =>
      rw [mem_unique] at hlast
      refine List.pairwise_append.mpr ⟨hearlier, List.pairwise_singleton _ last, fun a ha b hb => ?_⟩
      rw [mem_unique] at ha
      rw [List.mem_singleton.mp hb, List.idxOf_append_of_mem ha, List.idxOf_append_of_notMem hlast]
      have := List.idxOf_lt_length_iff.mpr ha
      omega

theorem unique_nodup (items : List String) : (unique items).Nodup := by
  refine (unique_pairwise items).imp fun hab => ?_
  rintro rfl
  exact Nat.lt_irrefl _ hab

end MockDialect.Conversion
