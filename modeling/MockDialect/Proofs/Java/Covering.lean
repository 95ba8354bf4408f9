import MockDialect.Proofs.Java.Extent

namespace MockDialect.Java

open Text

namespace Node

variable {n k first : Node} {rest : List Node} {text : List Char}

theorem Within.of_start (h : n.Within k) (hplaced : n.Placed text) (hsolid : n.All Node.Solid)
    (hchildren : n.children = first :: rest) (hstart : k.span.start = n.span.start) : k = n ∨ first.Within k := by
  rcases h.cases_child with rfl | ⟨m, hm, hwithin⟩
  · exact .inl rfl
  · by_cases hfirst : first = m
    · exact .inr (hfirst ▸ hwithin)
    · have hmem : first ∈ n.children := by simp [hchildren]
      have hbegins := hsolid.self.begins first (by simp [hchildren])
      have hnonempty := (hsolid.child hmem).self.nonempty
      have hinside := hwithin.inside (hplaced.laid.of_mem hm).2.2
      have hlaid := hplaced.laid.of_mem hm
      rcases hplaced.apart hmem hm hfirst with hapart | hapart
      · omega
      · have hm' := (hsolid.child hm).self.nonempty
        omega

theorem charAt_of_isCall (hplaced : n.Placed text) (hformed : n.All (Node.Formed text)) (hsolid : n.All Node.Solid)
    (hcall : n.isCall = true) :
    ∃ offset, CharAt text offset '(' ∧ n.span.start ≤ offset ∧ offset < n.span.stop := by
  obtain ⟨m, hm, hrole⟩ := hformed.self.applied hcall
  have hkind := hformed.self.argued hcall m hm hrole
  obtain ⟨hchar, -⟩ := (hformed.child hm).self.parenthesized (by rw [hkind]; rfl)
  have hinside := hplaced.laid.of_mem hm
  have hnonempty := (hsolid.child hm).self.nonempty
  exact ⟨m.span.start, hchar, hinside.1, by omega⟩

end Node

namespace Cursor

variable {tree : Node} {text : List Char} {start stop : Nat} {c d : Cursor}

theorem covers_iff {n : Node} :
    covers start stop n = true ↔ n.span.start ≤ start ∧ start < n.span.stop ∧ stop ≤ n.span.stop := by
  simp only [covers, Bool.and_eq_true, decide_eq_true_eq]
  omega

theorem innermostAmong_of_covers {ns above : List Node} {n : Node}
    (hapart : ns.Pairwise fun a b => a.span.stop ≤ b.span.start) (hn : n ∈ ns)
    (hcovers : covers start stop n = true) :
    innermostAmong start stop ns above = some (innermost start stop n above) := by
  induction ns with
  | nil => cases hn
  | cons k ns ih =>
    obtain ⟨hbehind, hapart⟩ := List.pairwise_cons.mp hapart
    rw [innermostAmong]
    rcases List.mem_cons.mp hn with rfl | hn
    · rw [if_pos hcovers]
    · have hk : ¬ covers start stop k = true := by
        have hbefore := hbehind n hn
        rw [covers_iff] at hcovers ⊢
        omega
      rw [if_neg hk]
      exact ih hapart hn

theorem In.innermost_eq (hplaced : tree.Placed text) (h : In tree c) (hcovers : covers start stop c.node = true) :
    Cursor.innermost start stop tree [] = Cursor.innermost start stop c.node c.above := by
  induction h with
  | root => rfl
  | @down n m above up mem ih =>
    have hm : m.Placed text := up.placed hplaced
    have hinside := hm.laid.of_mem mem
    have hcovers' : covers start stop m = true := by
      rw [covers_iff] at hcovers ⊢
      dsimp only at hcovers
      omega
    have hamong : Cursor.innermostAmong start stop m.children (m :: above) = _ :=
      innermostAmong_of_covers hm.laid.pairwise mem hcovers
    rw [ih hcovers']
    obtain ⟨kind, role, span, children⟩ := m
    rw [Node.children_mk] at hamong
    dsimp only
    rw [Cursor.innermost, hamong]
    rfl

mutual

theorem covers_innermost : ∀ {n : Node} {above : List Node}, covers start stop n = true →
    covers start stop (innermost start stop n above).node = true
  | .mk kind role span children, above, h => by
    rw [innermost]
    cases hc : innermostAmong start stop children (.mk kind role span children :: above) with
    | none => exact h
    | some c => exact covers_innermostAmong hc

theorem covers_innermostAmong : ∀ {ns above : List Node} {c : Cursor},
    innermostAmong start stop ns above = some c → covers start stop c.node = true
  | [], _, _, hc => by cases hc
  | n :: ns, above, c, hc => by
    rw [innermostAmong] at hc
    split at hc
    case isTrue hn =>
      obtain rfl := Option.some.inj hc
      exact covers_innermost hn
    case isFalse => exact covers_innermostAmong hc

end

theorem mem_outward_parent {n m : Node} {above : List Node} (h : ⟨n, m :: above⟩ ∈ outward c.node c.above) :
    ⟨m, above⟩ ∈ outward c.node c.above := by
  obtain ⟨k, around⟩ := c
  dsimp only at h ⊢
  induction around generalizing k with
  | nil => cases List.mem_singleton.mp h
  | cons l around ih =>
    rcases List.mem_cons.mp h with heq | h
    · obtain ⟨rfl, rfl⟩ : m = l ∧ above = around := List.cons.inj (congrArg Cursor.above heq)
      exact .tail _ (mem_outward_self _)
    · exact .tail _ (ih l h)

mutual

theorem mem_outward_innermost : ∀ {n : Node} {above : List Node},
    ⟨n, above⟩ ∈ outward (innermost start stop n above).node (innermost start stop n above).above
  | .mk kind role span children, above => by
    rw [innermost]
    cases hc : innermostAmong start stop children (.mk kind role span children :: above) with
    | none => exact mem_outward_self _
    | some c => exact mem_outward_innermostAmong hc

theorem mem_outward_innermostAmong : ∀ {ns : List Node} {m : Node} {above : List Node} {c : Cursor},
    innermostAmong start stop ns (m :: above) = some c → ⟨m, above⟩ ∈ outward c.node c.above
  | [], _, _, _, hc => by cases hc
  | n :: ns, m, above, c, hc => by
    rw [innermostAmong] at hc
    split at hc
    case isTrue =>
      obtain rfl := Option.some.inj hc
      exact mem_outward_parent mem_outward_innermost
    case isFalse => exact mem_outward_innermostAmong hc

end

theorem mem_outward_of_nearest {p : Cursor → Bool} (hd : c.nearest? p = some d) {e : Cursor}
    (he : e ∈ outward c.node c.above) (hp : p e = true) : e ∈ outward d.node d.above := by
  obtain ⟨n, above⟩ := c
  unfold nearest? at hd
  dsimp only at hd he
  induction above generalizing n with
  | nil =>
    obtain rfl := List.mem_singleton.mp (List.mem_of_find?_eq_some hd)
    exact he
  | cons m above ih =>
    rw [outward] at hd he
    by_cases hn : p ⟨n, m :: above⟩ = true
    · rw [List.find?_cons_of_pos hn] at hd
      obtain rfl := Option.some.inj hd
      exact he
    · rw [List.find?_cons_of_neg hn] at hd
      rcases List.mem_cons.mp he with rfl | he
      · exact absurd hp hn
      · exact ih m hd he

mutual

theorem within_of_mem_preorder : ∀ {n : Node} {above : List Node}, ∀ c ∈ preorder n above, n.Within c.node
  | .mk _ _ _ _, _, c, hc => by
    rw [preorder] at hc
    rcases List.mem_cons.mp hc with rfl | hc
    · exact .self
    · obtain ⟨m, hm, hwithin⟩ := within_of_mem_preorderAll c hc
      exact (Node.Within.child .self hm).trans hwithin

theorem within_of_mem_preorderAll : ∀ {ns above : List Node}, ∀ c ∈ preorderAll ns above, ∃ n ∈ ns, n.Within c.node
  | [], _, c, hc => by cases hc
  | n :: ns, above, c, hc => by
    rw [preorderAll] at hc
    rcases List.mem_append.mp hc with hc | hc
    · exact ⟨n, .head ns, within_of_mem_preorder c hc⟩
    · obtain ⟨m, hm, hwithin⟩ := within_of_mem_preorderAll c hc
      exact ⟨m, .tail n hm, hwithin⟩

end

mutual

theorem mem_outward_of_mem_preorder : ∀ {n : Node} {above : List Node},
    ∀ c ∈ preorder n above, ⟨n, above⟩ ∈ outward c.node c.above
  | .mk kind role span children, above, c, hc => by
    rw [preorder] at hc
    rcases List.mem_cons.mp hc with rfl | hc
    · exact mem_outward_self _
    · obtain ⟨m, -, hm⟩ := mem_outward_of_mem_preorderAll c hc
      exact mem_outward_parent hm

theorem mem_outward_of_mem_preorderAll : ∀ {ns above : List Node},
    ∀ c ∈ preorderAll ns above, ∃ n ∈ ns, ⟨n, above⟩ ∈ outward c.node c.above
  | [], _, c, hc => by cases hc
  | n :: ns, above, c, hc => by
    rw [preorderAll] at hc
    rcases List.mem_append.mp hc with hc | hc
    · exact ⟨n, .head ns, mem_outward_of_mem_preorder c hc⟩
    · obtain ⟨m, hm, hmem⟩ := mem_outward_of_mem_preorderAll c hc
      exact ⟨m, .tail n hm, hmem⟩

end

/-- A place is above another, through one of its children, or to its left. -/
def Passed (c d : Cursor) : Prop :=
  (∃ k ∈ c.node.children, ⟨k, c.node :: c.above⟩ ∈ outward d.node d.above) ∨ c.span.stop ≤ d.span.start

mutual

theorem preorder_passed : ∀ {n : Node} {above : List Node}, n.Placed text → (preorder n above).Pairwise Passed
  | .mk kind role span children, above, h => by
    rw [preorder]
    exact List.pairwise_cons.mpr ⟨fun c hc => .inl (mem_outward_of_mem_preorderAll c hc), preorderAll_passed h.laid⟩

theorem preorderAll_passed : ∀ {ns above : List Node} {lo hi : Nat}, Laid text lo ns hi →
    (preorderAll ns above).Pairwise Passed
  | [], _, _, _, _ => .nil
  | n :: ns, above, lo, hi, h => by
    rw [preorderAll]
    refine List.pairwise_append.mpr ⟨preorder_passed h.2.1, preorderAll_passed h.2.2, fun c hc d hd => .inr ?_⟩
    obtain ⟨m, hm, hwithin⟩ := within_of_mem_preorderAll d hd
    have hleft := (within_of_mem_preorder c hc).inside h.2.1
    have hbetween := h.2.2.of_mem hm
    have hright := hwithin.inside hbetween.2.2
    simp only [Cursor.span]
    omega

end

/-- A place is around another or to its left. -/
def Precedes (c d : Cursor) : Prop :=
  c.span.start ≤ d.span.start ∧ d.span.stop ≤ c.span.stop ∨ c.span.stop ≤ d.span.start

theorem preorder_pairwise (hplaced : tree.Placed text) : (preorder tree []).Pairwise Precedes := by
  refine (preorder_passed hplaced).imp_of_mem fun {c d} hc hd hpassed => ?_
  rcases hpassed with ⟨k, hk, hbelow⟩ | hleft
  · have hwithin := (in_of_mem_all hd).outward_within _ (mem_outward_parent hbelow)
    exact .inl (hwithin.inside ((in_of_mem_all hc).placed hplaced))
  · exact .inr hleft

mutual

theorem child_mem_preorder : ∀ {n : Node} {above : List Node} {c : Cursor}, c ∈ preorder n above →
    ∀ d ∈ c.children, d ∈ preorder n above
  | .mk kind role span children, above, c, hc, d, hd => by
    rw [preorder] at hc ⊢
    rcases List.mem_cons.mp hc with rfl | hc
    · obtain ⟨m, hm, rfl⟩ := List.mem_map.mp hd
      exact .tail _ (mem_preorderAll hm)
    · exact .tail _ (child_mem_preorderAll hc d hd)

theorem child_mem_preorderAll : ∀ {ns above : List Node} {c : Cursor}, c ∈ preorderAll ns above →
    ∀ d ∈ c.children, d ∈ preorderAll ns above
  | [], _, _, hc, _, _ => by cases hc
  | n :: ns, above, c, hc, d, hd => by
    rw [preorderAll] at hc ⊢
    rcases List.mem_append.mp hc with hc | hc
    · exact List.mem_append_left _ (child_mem_preorder hc d hd)
    · exact List.mem_append_right _ (child_mem_preorderAll hc d hd)

theorem mem_preorderAll : ∀ {ns above : List Node} {n : Node}, n ∈ ns → ⟨n, above⟩ ∈ preorderAll ns above
  | k :: ns, above, n, hn => by
    rw [preorderAll]
    rcases List.mem_cons.mp hn with rfl | hn
    · refine List.mem_append_left _ ?_
      cases n
      exact .head _
    · exact List.mem_append_right _ (mem_preorderAll hn)

end

theorem In.mem_all (h : In tree c) : c ∈ Cursor.all tree := by
  induction h with
  | root =>
    cases tree
    exact .head _
  | down _ mem ih => exact child_mem_preorder ih _ (List.mem_map_of_mem mem)

end Cursor

end MockDialect.Java
