import MockDialect.Java.Cursor
import MockDialect.Proofs.Java.Shape

namespace MockDialect.Java

open Text

/-- A node and the nodes below it. -/
inductive Node.Within (n : Node) : Node → Prop where
  | self : Within n n
  | child {m k : Node} (h : Within n m) (hk : k ∈ m.children) : Within n k

namespace Node

variable {n m k : Node} {text : List Char}

theorem Within.trans (hnm : n.Within m) (hmk : m.Within k) : n.Within k := by
  induction hmk with
  | self => exact hnm
  | child _ hk ih => exact ih.child hk

theorem Within.cases_child (h : n.Within k) : k = n ∨ ∃ m ∈ n.children, m.Within k := by
  induction h with
  | self => exact .inl rfl
  | @child m k _ hk ih =>
    rcases ih with rfl | ⟨c, hc, hm⟩
    · exact .inr ⟨k, hk, .self⟩
    · exact .inr ⟨c, hc, hm.child hk⟩

theorem Within.placed (hn : n.Placed text) (h : n.Within k) : k.Placed text := by
  induction h with
  | self => exact hn
  | child _ hk ih => exact (ih.laid.of_mem hk).2.2

theorem Within.all {P : Node → Prop} (hn : n.All P) (h : n.Within k) : k.All P := by
  induction h with
  | self => exact hn
  | child _ hk ih => exact ih.child hk

theorem all_of_within {P : Node → Prop} : ∀ {n : Node}, (∀ k, n.Within k → P k) → n.All P
  | .mk _ _ _ _, h => .mk (h _ .self) fun _ hm => all_of_within fun k hk => h k ((Within.child .self hm).trans hk)

theorem Within.inside (hn : n.Placed text) (h : n.Within k) :
    n.span.start ≤ k.span.start ∧ k.span.stop ≤ n.span.stop := by
  induction h with
  | self => exact ⟨Nat.le_refl _, Nat.le_refl _⟩
  | child hm hk ih =>
    have hchild := (hm.placed hn).laid.of_mem hk
    exact ⟨Nat.le_trans ih.1 hchild.1, Nat.le_trans hchild.2.1 ih.2⟩

theorem Within.eq_of_leaf (hn : n.children = []) (h : n.Within k) : k = n := by
  rcases h.cases_child with rfl | ⟨m, hm, -⟩
  · rfl
  · rw [hn] at hm
    cases hm

theorem Within.eq_of_token (hn : n.Regular text) (htoken : n.kind = .token) (h : n.Within k) : k = n :=
  h.eq_of_leaf (hn.bare htoken)

namespace WellFormed

theorem child (h : n.WellFormed) (hm : m ∈ n.children) :
    m.WellFormed ∧ n.span.start ≤ m.span.start ∧ m.span.stop ≤ n.span.stop := by
  cases h with
  | mk _ inside _ below => exact ⟨below m hm, Span.contains_iff.mp (inside m hm)⟩

theorem pairwise (h : n.WellFormed) : n.children.Pairwise fun a b => a.span.stop ≤ b.span.start := by
  cases h with
  | mk _ _ apart _ => exact apart

theorem within (hn : n.WellFormed) (h : n.Within k) :
    k.WellFormed ∧ n.span.start ≤ k.span.start ∧ k.span.stop ≤ n.span.stop := by
  induction h with
  | self => exact ⟨hn, Nat.le_refl _, Nat.le_refl _⟩
  | child _ hk ih =>
    obtain ⟨hm, hstart, hstop⟩ := ih
    obtain ⟨hk, hstart', hstop'⟩ := hm.child hk
    exact ⟨hk, Nat.le_trans hstart hstart', Nat.le_trans hstop' hstop⟩

theorem apart (hn : n.WellFormed) (hm : m ∈ n.children) (hk : k ∈ n.children) (hne : m ≠ k) :
    m.span.stop ≤ k.span.start ∨ k.span.stop ≤ m.span.start := by
  have hpairwise := hn.pairwise
  obtain ⟨before, after, hchildren⟩ := List.append_of_mem hm
  rw [hchildren] at hk hpairwise
  obtain ⟨-, hafter, hbefore⟩ := List.pairwise_append.mp hpairwise
  rcases List.mem_append.mp hk with hk | hk
  · exact .inr (hbefore k hk m (.head after))
  · rcases List.mem_cons.mp hk with rfl | hk
    · exact absurd rfl hne
    · exact .inl (List.rel_of_pairwise_cons hafter hk)

end WellFormed

theorem Placed.apart (hn : n.Placed text) (hm : m ∈ n.children) (hk : k ∈ n.children) (hne : m ≠ k) :
    m.span.stop ≤ k.span.start ∨ k.span.stop ≤ m.span.start :=
  hn.wellFormed.apart hm hk hne

end Node

namespace Cursor

variable {tree : Node}

theorem exists_in {n : Node} (h : tree.Within n) : ∃ above, In tree ⟨n, above⟩ := by
  induction h with
  | self => exact ⟨[], .root⟩
  | child _ hk ih =>
    obtain ⟨above, hin⟩ := ih
    exact ⟨_, .down hin hk⟩

theorem In.up {n m : Node} {above : List Node} (h : In tree ⟨n, m :: above⟩) :
    In tree ⟨m, above⟩ ∧ n ∈ m.children := by
  cases h with
  | down up mem => exact ⟨up, mem⟩

theorem In.within {c : Cursor} (h : In tree c) : tree.Within c.node := by
  induction h with
  | root => exact .self
  | down _ mem ih => exact ih.child mem

theorem In.all {P : Node → Prop} (hall : tree.All P) {c : Cursor} (h : In tree c) : c.node.All P :=
  h.within.all hall

theorem In.placed {text : List Char} (hplaced : tree.Placed text) {c : Cursor} (h : In tree c) :
    c.node.Placed text :=
  h.within.placed hplaced

theorem In.child {c d : Cursor} (h : In tree c) (hd : d ∈ c.children) : In tree d := by
  obtain ⟨n, hn, rfl⟩ := List.mem_map.mp hd
  exact .down h hn

theorem In.parent {c d : Cursor} (h : In tree c) (hd : c.parent? = some d) :
    In tree d ∧ c.above = d.node :: d.above ∧ c.node ∈ d.node.children := by
  obtain ⟨n, above⟩ := c
  cases above with
  | nil => cases hd
  | cons m above =>
    simp only [parent?, Option.some.injEq] at hd
    subst hd
    exact ⟨h.up.1, rfl, h.up.2⟩

theorem In.outward {n : Node} {above : List Node} (h : In tree ⟨n, above⟩) :
    ∀ c ∈ outward n above, In tree c := by
  induction above generalizing n with
  | nil =>
    intro c hc
    rw [List.mem_singleton.mp hc]
    exact h
  | cons m above ih =>
    intro c hc
    rcases List.mem_cons.mp hc with rfl | hc
    · exact h
    · exact ih h.up.1 c hc

theorem In.outward_within {n : Node} {above : List Node} (h : In tree ⟨n, above⟩) :
    ∀ c ∈ Cursor.outward n above, c.node.Within n := by
  induction above generalizing n with
  | nil =>
    intro c hc
    rw [List.mem_singleton.mp hc]
    exact .self
  | cons m above ih =>
    intro c hc
    rcases List.mem_cons.mp hc with rfl | hc
    · exact .self
    · exact (ih h.up.1 c hc).child h.up.2

theorem In.nearest {c d : Cursor} {p : Cursor → Bool} (h : In tree c) (hd : c.nearest? p = some d) :
    In tree d ∧ p d = true ∧ d.node.Within c.node := by
  have hmem := List.mem_of_find?_eq_some hd
  exact ⟨h.outward d hmem, List.find?_some hd, h.outward_within d hmem⟩

mutual

theorem In.preorder : ∀ {n : Node} {above : List Node}, In tree ⟨n, above⟩ →
    ∀ c ∈ preorder n above, In tree c
  | .mk _ _ _ _, _, h, c, hc => by
    rw [Cursor.preorder] at hc
    rcases List.mem_cons.mp hc with rfl | hc
    · exact h
    · exact In.preorderAll (fun m hm => .down h hm) c hc

theorem In.preorderAll : ∀ {ns above : List Node}, (∀ n ∈ ns, In tree ⟨n, above⟩) →
    ∀ c ∈ preorderAll ns above, In tree c
  | [], _, _, c, hc => by cases hc
  | n :: ns, _, h, c, hc => by
    rw [Cursor.preorderAll] at hc
    rcases List.mem_append.mp hc with hc | hc
    · exact In.preorder (h n (.head ns)) c hc
    · exact In.preorderAll (fun m hm => h m (.tail n hm)) c hc

end

theorem in_of_mem_all {c : Cursor} (h : c ∈ all tree) : In tree c := In.preorder .root c h

mutual

theorem In.innermost {start stop : Nat} : ∀ {n : Node} {above : List Node}, In tree ⟨n, above⟩ →
    In tree (Cursor.innermost start stop n above)
  | .mk k r s cs, above, h => by
    rw [Cursor.innermost]
    cases hc : Cursor.innermostAmong start stop cs (.mk k r s cs :: above) with
    | none => exact h
    | some c => exact In.innermostAmong (fun m hm => .down h hm) hc

theorem In.innermostAmong {start stop : Nat} : ∀ {ns above : List Node}, (∀ n ∈ ns, In tree ⟨n, above⟩) →
    ∀ {c : Cursor}, Cursor.innermostAmong start stop ns above = some c → In tree c
  | [], _, _, _, hc => by cases hc
  | n :: ns, _, h, c, hc => by
    rw [Cursor.innermostAmong] at hc
    split at hc
    · simp only [Option.some.injEq] at hc
      exact hc ▸ In.innermost (h n (.head ns))
    · exact In.innermostAmong (fun m hm => h m (.tail n hm)) hc

end

end Cursor

end MockDialect.Java
