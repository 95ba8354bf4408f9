import MockDialect.Source.File
import Mathlib.Data.List.MinMax

namespace MockDialect.Source

open Text

variable {declared : List Variable} {name : String} {offset : Nat} {v : Variable}

theorem argmin_eq_some_iff_append {α : Type} (size : α → Nat) {l : List α} {m : α} :
    l.argmin size = some m ↔
      ∃ front back, l = front ++ m :: back ∧ (∀ x ∈ front, size m < size x) ∧ ∀ x ∈ back, size m ≤ size x := by
  induction l generalizing m with
  | nil => simp
  | cons a l ih =>
    rw [List.argmin_cons]
    cases hrest : l.argmin size with
    | none =>
      obtain rfl : l = [] := List.argmin_eq_none.mp hrest
      constructor
      · intro h
        obtain rfl := Option.some.inj h
        exact ⟨[], [], rfl, nofun, nofun⟩
      · rintro ⟨front, back, hsplit, -, -⟩
        obtain ⟨rfl, ha⟩ | ⟨front, rfl, hnil⟩ := List.cons_eq_append_iff.mp hsplit
        · rw [List.head_eq_of_cons_eq ha]
        · simp at hnil
    | some least =>
      by_cases hlt : size least < size a
      · simp only [hlt, if_true]
        constructor
        · intro h
          obtain rfl := Option.some.inj h
          obtain ⟨front, back, rfl, hfront, hback⟩ := ih.mp hrest
          exact ⟨a :: front, back, rfl, List.forall_mem_cons.mpr ⟨hlt, hfront⟩, hback⟩
        · rintro ⟨front, back, hsplit, hfront, hback⟩
          obtain ⟨rfl, ha⟩ | ⟨front, rfl, hl⟩ := List.cons_eq_append_iff.mp hsplit
          · obtain ⟨rfl, rfl⟩ := List.cons.inj ha
            exact absurd (hback least (List.argmin_mem hrest)) (Nat.not_le.mpr hlt)
          · rw [← hrest]
            exact ih.mpr ⟨front, back, hl, (List.forall_mem_cons.mp hfront).2, hback⟩
      · simp only [hlt, if_false]
        constructor
        · intro h
          obtain rfl := Option.some.inj h
          refine ⟨[], l, rfl, nofun, fun x hx => ?_⟩
          exact Nat.le_trans (Nat.not_lt.mp hlt) (List.le_of_mem_argmin hx hrest)
        · rintro ⟨front, back, hsplit, hfront, hback⟩
          obtain ⟨rfl, ha⟩ | ⟨front, rfl, hl⟩ := List.cons_eq_append_iff.mp hsplit
          · rw [List.head_eq_of_cons_eq ha]
          · -- one behind the first is the answer only if it is smaller than the first
            have hm := ih.mpr ⟨front, back, hl, (List.forall_mem_cons.mp hfront).2, hback⟩
            obtain rfl := Option.some.inj (hrest.symm.trans hm)
            exact absurd (hfront a (.head _)) hlt

namespace Variable

/-- A declaration counts for a name from the start of its scope, or from itself on if it is no field, up to the offset
where the scope ends. -/
def CountsAt (v : Variable) (name : String) (offset : Nat) : Prop :=
  v.name = name ∧ v.scope.start ≤ offset ∧ offset ≤ v.scope.stop ∧ (v.kind = .field ∨ v.declaredAt ≤ offset)

def InScopeAt (v : Variable) (name : String) (offset : Nat) : Prop :=
  v.name = name ∧ v.scope.start ≤ offset ∧ offset < v.scope.stop ∧ (v.kind = .field ∨ v.declaredAt ≤ offset)

/-- The answers to what a name stands for that scopes without their ends allow: a declaration in whose scope the offset
lies such that there is none with a shorter one, or nothing if there is no declaration at all. -/
def Innermost (declared : List Variable) (name : String) (offset : Nat) : Option Variable → Prop
  | some v => v ∈ declared ∧ v.InScopeAt name offset ∧
      ∀ w ∈ declared, w.InScopeAt name offset → v.scope.length ≤ w.scope.length
  | none => ∀ w ∈ declared, ¬w.InScopeAt name offset

theorem visibleAt_iff : v.visibleAt offset = true ↔
    v.scope.start ≤ offset ∧ offset ≤ v.scope.stop ∧ (v.kind = .field ∨ v.declaredAt ≤ offset) := by
  simp [visibleAt, and_assoc]

theorem countsAt_iff : (v.name == name && v.visibleAt offset) = true ↔ v.CountsAt name offset := by
  rw [Bool.and_eq_true, beq_iff_eq, visibleAt_iff, CountsAt]

theorem inScopeAt_iff : v.InScopeAt name offset ↔ v.CountsAt name offset ∧ offset ≠ v.scope.stop := by
  unfold InScopeAt CountsAt
  constructor
  · rintro ⟨hname, hstart, hstop, hafter⟩
    exact ⟨⟨hname, hstart, hstop.le, hafter⟩, hstop.ne⟩
  · rintro ⟨⟨hname, hstart, hstop, hafter⟩, hne⟩
    exact ⟨hname, hstart, hstop.lt_of_ne hne, hafter⟩

theorem lookup?_eq_argmin (declared : List Variable) (name : String) (offset : Nat) :
    lookup? declared name offset =
      (declared.filter fun v => v.name == name && v.visibleAt offset).argmin (·.scope.length) := by
  have hstep : narrower = List.argAux fun v w : Variable => v.scope.length < w.scope.length := by
    funext best v
    cases best <;> rfl
  rw [lookup?, hstep]
  rfl

theorem lookup?_eq_some_iff : lookup? declared name offset = some v ↔
    ∃ front back, declared = front ++ v :: back ∧ v.CountsAt name offset ∧
      (∀ w ∈ front, w.CountsAt name offset → v.scope.length < w.scope.length) ∧
      ∀ w ∈ back, w.CountsAt name offset → v.scope.length ≤ w.scope.length := by
  rw [lookup?_eq_argmin, argmin_eq_some_iff_append]
  constructor
  · rintro ⟨front, back, hsplit, hfront, hback⟩
    obtain ⟨before, rest, rfl, rfl, hrest⟩ := List.filter_eq_append_iff.mp hsplit
    obtain ⟨skipped, after, rfl, hskipped, hv, rfl⟩ := List.filter_eq_cons_iff.mp hrest
    refine ⟨before ++ skipped, after, by rw [List.append_assoc], countsAt_iff.mp hv, ?_, ?_⟩
    · intro w hw hcounts
      rcases List.mem_append.mp hw with hw | hw
      · exact hfront w (List.mem_filter.mpr ⟨hw, countsAt_iff.mpr hcounts⟩)
      · exact absurd (countsAt_iff.mpr hcounts) (hskipped w hw)
    · exact fun w hw hcounts => hback w (List.mem_filter.mpr ⟨hw, countsAt_iff.mpr hcounts⟩)
  · rintro ⟨front, back, rfl, hv, hfront, hback⟩
    refine ⟨_, _, by rw [List.filter_append, List.filter_cons_of_pos (by exact countsAt_iff.mpr hv)], ?_, ?_⟩
    · intro w hw
      obtain ⟨hw, hcounts⟩ := List.mem_filter.mp hw
      exact hfront w hw (countsAt_iff.mp hcounts)
    · intro w hw
      obtain ⟨hw, hcounts⟩ := List.mem_filter.mp hw
      exact hback w hw (countsAt_iff.mp hcounts)

theorem lookup?_eq_none_iff :
    lookup? declared name offset = none ↔ ∀ w ∈ declared, ¬w.CountsAt name offset := by
  rw [lookup?_eq_argmin, List.argmin_eq_none, List.filter_eq_nil_iff]
  exact forall₂_congr fun w _ => not_congr countsAt_iff

theorem least_of_lookup? (h : lookup? declared name offset = some v) :
    v ∈ declared ∧ v.CountsAt name offset ∧
      ∀ w ∈ declared, w.CountsAt name offset → v.scope.length ≤ w.scope.length := by
  obtain ⟨front, back, rfl, hv, hfront, hback⟩ := lookup?_eq_some_iff.mp h
  refine ⟨List.mem_append_right front (.head back), hv, fun w hw hcounts => ?_⟩
  rcases List.mem_append.mp hw with hw | hw
  · exact (hfront w hw hcounts).le
  · cases hw with
    | head => exact Nat.le_refl _
    | tail _ hw => exact hback w hw hcounts

theorem mem_of_lookup? (h : v ∈ lookup? declared name offset) : v ∈ declared := (least_of_lookup? h).1

/-- A name stands for the first of the narrowest declarations that count for it. That is the innermost one in whose
scope the offset lies, unless the scope of the one found ends at the offset. -/
theorem lookup?_innermost_iff (declared : List Variable) (name : String) (offset : Nat) :
    (∀ v, lookup? declared name offset = some v ↔
      ∃ front back, declared = front ++ v :: back ∧ v.CountsAt name offset ∧
        (∀ w ∈ front, w.CountsAt name offset → v.scope.length < w.scope.length) ∧
        ∀ w ∈ back, w.CountsAt name offset → v.scope.length ≤ w.scope.length) ∧
    (lookup? declared name offset = none ↔ ∀ w ∈ declared, ¬w.CountsAt name offset) ∧
    (Innermost declared name offset (lookup? declared name offset) ↔
      ∀ v ∈ lookup? declared name offset, offset ≠ v.scope.stop) := by
  refine ⟨fun v => lookup?_eq_some_iff, lookup?_eq_none_iff, ?_⟩
  cases hfound : lookup? declared name offset with
  | none =>
    have hnone := lookup?_eq_none_iff.mp hfound
    exact ⟨fun _ => nofun, fun _ w hw hin => hnone w hw (inScopeAt_iff.mp hin).1⟩
  | some v =>
    obtain ⟨hmem, hcounts, hleast⟩ := least_of_lookup? hfound
    constructor
    · rintro ⟨-, hin, -⟩ w hw
      obtain rfl := Option.some.inj hw
      exact (inScopeAt_iff.mp hin).2
    · intro hends
      exact ⟨hmem, inScopeAt_iff.mpr ⟨hcounts, hends v rfl⟩,
        fun w hw hin => hleast w hw (inScopeAt_iff.mp hin).1⟩

end Variable

/-- A name right behind a block is taken for the variable of the block, where it is the field. -/
theorem lookup?_innermost_behind_block :
    let f := File.read "class T \x7b int x; void t() \x7b \x7b int x; \x7dx++; \x7d \x7d"
    ∃ field inner, f.broken = false ∧ f.declared = [field, inner] ∧ f.lookup? "x" 38 = some inner ∧
      inner.kind = .local ∧ inner.scope.stop = 38 ∧ ¬Variable.Innermost f.declared "x" 38 (f.lookup? "x" 38) ∧
      field.kind = .field ∧ Variable.Innermost f.declared "x" 38 (some field) := by
  generalize hfile : File.read _ = f
  dsimp only
  have hcomputed : (!f.broken && f.declared.map (fun v => (v.name, v.kind, v.scope, v.declaredAt)) ==
      [("x", .field, ⟨8, 46⟩, 14), ("x", .local, ⟨28, 38⟩, 34)]) = true := by
    subst hfile
    decide +kernel
  simp only [Bool.and_eq_true, Bool.not_eq_true', beq_iff_eq, List.map_eq_cons_iff, List.map_eq_nil_iff,
    Prod.mk.injEq] at hcomputed
  obtain ⟨hbroken, field, _, hdeclared, ⟨hname, hkind, hscope, -⟩, inner, _, rfl, ⟨hinner, hlocal, hblock, hat⟩,
    rfl⟩ := hcomputed
  have hfield : field.InScopeAt "x" 38 := by simp [Variable.InScopeAt, hname, hkind, hscope]
  have hends : ¬inner.InScopeAt "x" 38 := by simp [Variable.InScopeAt, hblock]
  have hfound : f.lookup? "x" 38 = some inner := by
    rw [File.lookup?, hdeclared]
    refine Variable.lookup?_eq_some_iff.mpr ⟨[field], [], rfl, ?_, ?_, List.forall_mem_nil _⟩
    · simp [Variable.CountsAt, hinner, hblock, hat]
    · intro w hw _
      obtain rfl := List.mem_singleton.mp hw
      simp [hscope, hblock, Span.length]
  refine ⟨field, inner, hbroken, hdeclared, hfound, hlocal, by rw [hblock], ?_, hkind, ?_⟩
  · rw [hfound]
    exact fun h => hends h.2.1
  · rw [hdeclared]
    refine ⟨.head _, hfield, fun w hw hin => ?_⟩
    cases hw with
    | head => exact Nat.le_refl _
    | tail _ hw =>
      obtain rfl := List.mem_singleton.mp hw
      exact absurd hin hends

end MockDialect.Source
