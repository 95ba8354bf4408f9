import Mathlib.Data.List.Forall2

namespace MockDialect.Conversion

variable {ε α β : Type}

theorem bind_eq_ok {x : Except ε α} {f : α → Except ε β} {b : β} :
    x >>= f = .ok b ↔ ∃ a, x = .ok a ∧ f a = .ok b := by
  cases x with
  | error e => exact ⟨fun h => (nomatch h), fun ⟨_, h, _⟩ => (nomatch h)⟩
  | ok a => exact ⟨fun h => ⟨a, rfl, h⟩, fun ⟨_, h, hb⟩ => Except.ok.inj h ▸ hb⟩

theorem eq_ok_of_toOption {x : Except ε α} {a : α} (h : x.toOption = some a) : x = .ok a := by
  cases x with
  | error e => cases h
  | ok b => rw [Option.some.inj h]

/-- A walk gives a list just if each step gives the element in its place. This is so wherever a sequence of
two steps can give a value only if both do. -/
theorem mapM_eq_pure {m : Type → Type} [Monad m] [LawfulMonad m]
    (hpure : ∀ {α : Type} {a b : α}, (pure a : m α) = pure b → a = b)
    (hbind : ∀ {α β : Type} {x : m α} {k : α → m β} {b : β}, x >>= k = pure b → ∃ a, x = pure a ∧ k a = pure b)
    {f : α → m β} {xs : List α} {ys : List β} : xs.mapM f = pure ys ↔ xs.map f = ys.map pure := by
  induction xs generalizing ys with
  | nil =>
    rw [List.mapM_nil, List.map_nil]
    cases ys with
    | nil => exact ⟨fun _ => rfl, fun _ => rfl⟩
    | cons y ys => exact ⟨fun h => (nomatch hpure h), fun h => (nomatch h)⟩
  | cons x xs ih =>
    rw [List.mapM_cons]
    constructor
    · intro h
      obtain ⟨y, hy, h⟩ := hbind h
      obtain ⟨rest, hrest, h⟩ := hbind h
      obtain rfl := hpure h
      rw [List.map_cons, List.map_cons, hy, ih.mp hrest]
    · intro h
      cases ys with
      | nil => cases h
      | cons y ys =>
        rw [List.map_cons, List.map_cons, List.cons.injEq] at h
        rw [h.1, pure_bind, ih.mpr h.2, pure_bind]

theorem mapM_eq_ok {f : α → Except ε β} {xs : List α} {ys : List β} :
    xs.mapM f = .ok ys ↔ xs.map f = ys.map .ok :=
  mapM_eq_pure (m := Except ε) Except.ok.inj bind_eq_ok.mp

theorem mapM_eq_some {f : α → Option β} {xs : List α} {ys : List β} :
    xs.mapM f = some ys ↔ xs.map f = ys.map some :=
  mapM_eq_pure (m := Option) Option.some.inj Option.bind_eq_some_iff.mp

theorem mapM_singleton {f : α → Except ε β} {x : α} {y : β} (h : f x = .ok y) : [x].mapM f = .ok [y] :=
  mapM_eq_ok.mpr (congrArg (fun z => [z]) h)

theorem exists_of_mapM {f : α → Except ε β} {xs : List α} {ys : List β} (h : xs.mapM f = .ok ys) :
    ∀ x ∈ xs, ∃ y ∈ ys, f x = .ok y := by
  intro x hx
  have hmem : f x ∈ ys.map Except.ok := mapM_eq_ok.mp h ▸ List.mem_map_of_mem hx
  obtain ⟨y, hy, he⟩ := List.mem_map.mp hmem
  exact ⟨y, hy, he.symm⟩

theorem mapM_eq_ok_map {f : α → Except ε β} {g : α → β} {xs : List α} (h : ∀ x ∈ xs, f x = .ok (g x)) :
    xs.mapM f = .ok (xs.map g) := by
  rw [mapM_eq_ok, List.map_map]
  exact List.map_congr_left h

theorem exists_mapM {f : α → Except ε β} {xs : List α} (h : ∀ x ∈ xs, ∃ y, f x = .ok y) :
    ∃ ys, xs.mapM f = .ok ys := by
  induction xs with
  | nil => exact ⟨[], rfl⟩
  | cons x xs ih =>
    obtain ⟨y, hy⟩ := h x (.head xs)
    obtain ⟨ys, hys⟩ := ih fun z hz => h z (.tail x hz)
    exact ⟨y :: ys, by rw [mapM_eq_ok, List.map_cons, List.map_cons, hy, mapM_eq_ok.mp hys]⟩

theorem mapM_eq_ok_iff_forall₂ {f : α → Except ε β} {xs : List α} {ys : List β} :
    xs.mapM f = .ok ys ↔ List.Forall₂ (fun x y => f x = .ok y) xs ys := by
  rw [mapM_eq_ok, ← List.forall₂_eq_eq_eq, List.forall₂_map_left_iff, List.forall₂_map_right_iff]

theorem mapM_eq_error {f : α → Except ε β} {xs : List α} {e : ε} :
    xs.mapM f = .error e ↔
      ∃ front x back, xs = front ++ x :: back ∧ (∀ z ∈ front, ∃ y, f z = .ok y) ∧ f x = .error e := by
  induction xs with
  | nil =>
    constructor
    · nofun
    · rintro ⟨front, x, back, hsplit, -, -⟩
      simp at hsplit
  | cons a xs ih =>
    rw [List.mapM_cons]
    cases ha : f a with
    | error d =>
      constructor
      · intro h
        obtain rfl := Except.error.inj h
        exact ⟨[], a, xs, rfl, nofun, ha⟩
      · rintro ⟨front, x, back, hsplit, hfront, hx⟩
        cases front with
        | nil =>
          obtain ⟨rfl, -⟩ := List.cons.inj hsplit
          obtain rfl := Except.error.inj (ha.symm.trans hx)
          rfl
        | cons z front =>
          obtain ⟨rfl, -⟩ := List.cons.inj hsplit
          obtain ⟨y, hy⟩ := hfront a (.head front)
          cases ha.symm.trans hy
    | ok y =>
      have hrest : (xs.mapM f >>= fun ys => pure (y :: ys)) = Except.error e ↔ xs.mapM f = .error e := by
        cases xs.mapM f with
        | error d => exact Iff.rfl
        | ok ys => exact ⟨nofun, nofun⟩
      refine hrest.trans (ih.trans ?_)
      constructor
      · rintro ⟨front, x, back, rfl, hfront, hx⟩
        exact ⟨a :: front, x, back, rfl, List.forall_mem_cons.mpr ⟨⟨y, ha⟩, hfront⟩, hx⟩
      · rintro ⟨front, x, back, hsplit, hfront, hx⟩
        cases front with
        | nil =>
          obtain ⟨rfl, -⟩ := List.cons.inj hsplit
          cases ha.symm.trans hx
        | cons z front =>
          obtain ⟨rfl, rfl⟩ := List.cons.inj hsplit
          exact ⟨front, x, back, rfl, (List.forall_mem_cons.mp hfront).2, hx⟩

section
variable {γ : Type} {xs : List α} {ys : List β} {f : α → γ} {g : β → γ}

theorem exists_of_map_eq (h : xs.map f = ys.map g) : ∀ y ∈ ys, ∃ x ∈ xs, f x = g y := by
  intro y hy
  have hmem : g y ∈ xs.map f := h ▸ List.mem_map_of_mem hy
  exact List.mem_map.mp hmem

theorem exists_zip_of_map_eq (h : xs.map f = ys.map g) : ∀ x ∈ xs, ∃ y, (x, y) ∈ xs.zip ys ∧ f x = g y := by
  induction xs generalizing ys with
  | nil => exact fun x hx => (nomatch hx)
  | cons a xs ih =>
    obtain ⟨b, rest, rfl, hb, hrest⟩ := List.map_eq_cons_iff.mp h.symm
    intro x hx
    rcases List.mem_cons.mp hx with rfl | hx
    · exact ⟨b, .head _, hb.symm⟩
    · obtain ⟨y, hy, hxy⟩ := ih hrest.symm x hx
      exact ⟨y, .tail _ hy, hxy⟩

theorem forall₂_of_map_eq {R : α → β → Prop} (h : xs.map f = ys.map g)
    (hR : ∀ x ∈ xs, ∀ y, f x = g y → R x y) : List.Forall₂ R xs ys := by
  induction xs generalizing ys with
  | nil =>
    obtain rfl := List.map_eq_nil_iff.mp h.symm
    exact .nil
  | cons a xs ih =>
    obtain ⟨b, rest, rfl, hb, hrest⟩ := List.map_eq_cons_iff.mp h.symm
    exact .cons (hR a (.head xs) b hb.symm) (ih hrest.symm fun x hx => hR x (.tail a hx))

theorem map_eq_map_of_imp {δ : Type} {f' : α → δ} {g' : β → δ} (h : xs.map f = ys.map g)
    (himp : ∀ x y, f x = g y → f' x = g' y) : xs.map f' = ys.map g' := by
  induction xs generalizing ys with
  | nil =>
    obtain rfl := List.map_eq_nil_iff.mp h.symm
    rfl
  | cons x xs ih =>
    obtain ⟨y, rest, rfl, hy, hrest⟩ := List.map_eq_cons_iff.mp h.symm
    rw [List.map_cons, List.map_cons, himp x y hy.symm, ih hrest.symm]

theorem exists_of_forall₂ {R : α → β → Prop} (h : List.Forall₂ R xs ys) : ∀ y ∈ ys, ∃ x ∈ xs, R x y := by
  induction h with
  | nil => exact nofun
  | cons hab _ ih =>
    intro y hy
    rcases List.mem_cons.mp hy with rfl | hy
    · exact ⟨_, .head _, hab⟩
    · obtain ⟨x, hx, hxy⟩ := ih y hy
      exact ⟨x, .tail _ hx, hxy⟩

theorem pairwise_of_forall₂ {R : α → β → Prop} {S : α → α → Prop} {T : β → β → Prop}
    (h : List.Forall₂ R xs ys) (hxs : xs.Pairwise S) (hT : ∀ a b x y, R a x → R b y → S a b → T x y) :
    ys.Pairwise T := by
  induction h with
  | nil => exact .nil
  | cons hab hrest ih =>
    obtain ⟨ha, hxs⟩ := List.pairwise_cons.mp hxs
    refine .cons (fun y hy => ?_) (ih hxs)
    obtain ⟨x, hx, hxy⟩ := exists_of_forall₂ hrest y hy
    exact hT _ x _ y hab hxy (ha x hx)

theorem pairwise_of_map_eq {R : α → α → Prop} {S : β → β → Prop} (h : xs.map f = ys.map g)
    (hxs : xs.Pairwise R) (hS : ∀ a ∈ xs, ∀ b ∈ xs, ∀ x y, f a = g x → f b = g y → R a b → S x y) :
    ys.Pairwise S := by
  have hrow : List.Forall₂ (fun x y => x ∈ xs ∧ f x = g y) xs ys :=
    forall₂_of_map_eq h fun x hx y hxy => ⟨hx, hxy⟩
  exact pairwise_of_forall₂ hrow hxs fun a b x y ha hb hab => hS a ha.1 b hb.1 x y ha.2 hb.2 hab

end

end MockDialect.Conversion
