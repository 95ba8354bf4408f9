import MockDialect.Proofs.Source.Sound

namespace MockDialect.Java

open Text

namespace Lexeme

variable {cs taken rest : List Char}

theorem ne_nil_of_symbol? (h : symbol? cs = some (taken, rest)) : taken ≠ [] := by
  obtain ⟨s, hs, he⟩ := Option.map_eq_some_iff.mp h
  obtain ⟨rfl, -⟩ := Prod.mk.injEq .. ▸ he
  exact (by decide : ∀ s ∈ symbols, s.toList ≠ []) s (List.mem_of_find?_eq_some hs)

theorem ne_nil_of_tagged {l m : Lexeme} {lead : List Char} {found : Option (List Char × List Char)}
    (hlead : lead ≠ []) (h : tagged l lead found = some (m, taken, rest)) : taken ≠ [] := by
  cases found with
  | none => cases h
  | some p =>
    simp only [tagged, Option.some.injEq, Prod.mk.injEq] at h
    rw [← h.2.1]
    exact List.append_ne_nil_of_left_ne_nil hlead _

theorem ne_nil_of_cons {l m : Lexeme} {c : Char} {others behind : List Char}
    (h : some (l, c :: others, behind) = some (m, taken, rest)) : taken ≠ [] := by
  simp only [Option.some.injEq, Prod.mk.injEq] at h
  rw [← h.2.1]
  exact List.cons_ne_nil _ _

theorem ne_nil_of_next? {l : Lexeme} (h : next? cs = some (l, taken, rest)) : taken ≠ [] := by
  unfold next? at h
  split at h
  · cases h
  · exact ne_nil_of_cons h
  · exact ne_nil_of_tagged (List.cons_ne_nil _ _) h
  · exact ne_nil_of_tagged (List.cons_ne_nil _ _) h
  · exact ne_nil_of_tagged (List.cons_ne_nil _ _) h
  · cases h
  · exact ne_nil_of_tagged (List.cons_ne_nil _ _) h
  · next c cs _ _ _ _ _ _ =>
    -- a separator, a word and a number keep their first character
    split at h
    · exact ne_nil_of_cons h
    split at h
    · exact ne_nil_of_cons h
    split at h
    · exact ne_nil_of_tagged (List.cons_ne_nil _ _) h
    cases hsymbol : symbol? (c :: cs) with
    | none =>
      rw [hsymbol] at h
      cases h
    | some found =>
      rw [hsymbol] at h
      simp only [tagged, Option.some.injEq, Prod.mk.injEq] at h
      rw [← h.2.1]
      exact ne_nil_of_symbol? hsymbol

theorem ne_nil_of_cut {n : Nat} {ls : List (Lexeme × List Char)} (h : cut n cs = some ls) : ∀ l ∈ ls, l.2 ≠ [] :=
  forall_of_cut (P := fun _ taken => taken ≠ []) ne_nil_of_next? h

end Lexeme

/-- A token with a text, behind comments that have one. -/
structure Token.Solid (t : Token) : Prop where
  text : t.text.toList ≠ []
  comments : ∀ n ∈ t.comments, n.span.start < n.span.stop

theorem assemble_solid {offset : Nat} {comments trailing : List Node} {ls : List (Lexeme × List Char)}
    {tokens : List Token} (hls : ∀ l ∈ ls, l.2 ≠ []) (hcomments : ∀ n ∈ comments, n.span.start < n.span.stop)
    (h : Token.assemble offset comments ls = (tokens, trailing)) :
    (∀ t ∈ tokens, t.Solid) ∧ ∀ n ∈ trailing, n.span.start < n.span.stop := by
  induction ls generalizing offset comments tokens with
  | nil =>
    simp only [Token.assemble, Prod.mk.injEq] at h
    obtain ⟨rfl, rfl⟩ := h
    exact ⟨List.forall_mem_nil _, hcomments⟩
  | cons l ls ih =>
    obtain ⟨l, cs⟩ := l
    obtain ⟨hcs, hmore⟩ := List.forall_mem_cons.mp hls
    have hcomment (kind : Kind) : ∀ n ∈ comments ++ [.leaf kind ⟨offset, offset + width cs⟩],
        n.span.start < n.span.stop :=
      List.forall_mem_append.mpr
        ⟨hcomments, List.forall_mem_singleton.mpr (Nat.lt_add_of_pos_right (width_pos hcs))⟩
    cases l with
    | blank => exact ih hmore hcomments h
    | lineComment | blockComment => exact ih hmore (hcomment _) h
    | word | number | character | string | symbol =>
      simp only [Token.assemble, Prod.mk.injEq] at h
      obtain ⟨rfl, rfl⟩ := h
      obtain ⟨hsolid, htrailing⟩ := ih hmore (List.forall_mem_nil _) rfl
      refine ⟨List.forall_mem_cons.mpr ⟨⟨?_, hcomments⟩, hsolid⟩, htrailing⟩
      rwa [String.toList_ofList]

theorem read_solid {text : List Char} {tokens : List Token} {trailing : List Node}
    (h : Token.read text = some (tokens, trailing)) :
    (∀ t ∈ tokens, t.Solid) ∧ ∀ n ∈ trailing, n.span.start < n.span.stop := by
  unfold Token.read at h
  split at h
  · next c rest =>
    split at h
    · obtain ⟨ls, hcut, hassemble⟩ := Option.map_eq_some_iff.mp h
      refine assemble_solid (List.forall_mem_cons.mpr ⟨?_, Lexeme.ne_nil_of_cut hcut⟩) (List.forall_mem_nil _) hassemble
      exact List.cons_ne_nil c []
    · obtain ⟨ls, hcut, hassemble⟩ := Option.map_eq_some_iff.mp h
      exact assemble_solid (Lexeme.ne_nil_of_cut hcut) (List.forall_mem_nil _) hassemble
  · simp only [Option.some.injEq, Prod.mk.injEq] at h
    obtain ⟨rfl, rfl⟩ := h
    exact ⟨nofun, nofun⟩

/-- A node that takes up some of the text and begins where its first child does. -/
structure Node.Solid (n : Node) : Prop where
  nonempty : n.span.start < n.span.stop
  begins : ∀ m ∈ n.children.head?, m.span.start = n.span.start

variable {text : List Char} {lo hi : Nat}

theorem solid_leaf {kind : Kind} {span : Span} (h : span.start < span.stop) :
    (Node.leaf kind span).All Node.Solid :=
  .leaf ⟨h, nofun⟩

theorem Remarks.solid {ns : List Node} (h : Remarks ns) (hne : ∀ n ∈ ns, n.span.start < n.span.stop) :
    ∀ n ∈ ns, n.All Node.Solid := by
  intro n hn
  obtain ⟨kind, span, rfl, -⟩ := h n hn
  exact solid_leaf (hne _ hn)

theorem Token.At.nonempty {t : Token} (h : t.At text) (ht : t.text.toList ≠ []) : t.span.start < t.span.stop := by
  obtain ⟨before, after, -, hspan⟩ := h
  rw [hspan]
  exact Nat.lt_add_of_pos_right (width_pos ht)

theorem solid_of_head {n first : Node} {rest : List Node} (hn : n.Placed text) (hchildren : n.children = first :: rest)
    (hstart : first.span.start = n.span.start) (hall : ∀ m ∈ first :: rest, m.All Node.Solid) :
    n.All Node.Solid := by
  have hinside := hn.laid.of_mem (hchildren ▸ List.mem_cons_self)
  have hfirst := (hall first (.head rest)).self.nonempty
  refine .mk ⟨by omega, fun m hm => ?_⟩ fun m hm => hall m (hchildren ▸ hm)
  rw [hchildren] at hm
  rw [← Option.some.inj hm]
  exact hstart

theorem solid_of_eq {n m : Node} (hspan : m.span = n.span) (hchildren : m.children = n.children)
    (h : n.All Node.Solid) : m.All Node.Solid := by
  refine .mk ⟨?_, ?_⟩ fun k hk => h.child (hchildren ▸ hk)
  · rw [hspan]
    exact h.self.nonempty
  · rw [hspan, hchildren]
    exact h.self.begins

theorem closeAngle?_solid {ts rest : List Token} {xs : List Node} (hts : Lined text lo ts hi)
    (hsolid : ∀ t ∈ ts, t.Solid) (h : Token.closeAngle? ts = some (xs, rest)) :
    (∀ x ∈ xs, x.All Node.Solid) ∧ ∀ t ∈ rest, t.Solid := by
  cases ts with
  | nil => cases h
  | cons t ts =>
    obtain ⟨-, hremarks, hat, -⟩ := hts
    obtain ⟨ht, hsolid⟩ := List.forall_mem_cons.mp hsolid
    simp only [Token.closeAngle?] at h
    split at h
    · simp only [Option.some.injEq, Prod.mk.injEq] at h
      obtain ⟨rfl, rfl⟩ := h
      exact ⟨List.forall_mem_append.mpr ⟨hremarks.solid ht.comments,
        List.forall_mem_singleton.mpr (solid_leaf (hat.nonempty ht.text))⟩, hsolid⟩
    · next cs hlonger _ _ =>
      simp only [Option.some.injEq, Prod.mk.injEq] at h
      obtain ⟨rfl, rfl⟩ := h
      -- the symbol was longer than the sign that is split off
      refine ⟨List.forall_mem_append.mpr ⟨hremarks.solid ht.comments,
        List.forall_mem_singleton.mpr (solid_leaf (Nat.lt_succ_self _))⟩,
        List.forall_mem_cons.mpr ⟨⟨?_, List.forall_mem_nil _⟩, hsolid⟩⟩
      rw [String.toList_ofList]
      exact hlonger
    · cases h

theorem Reads.solid {grammar : Phrase → Rule} {rule : Rule} {ts rest : List Token} {xs : List Node}
    (h : Reads grammar rule ts xs rest) (hts : Lined text lo ts hi) (hsolid : ∀ t ∈ ts, t.Solid) :
    (∀ x ∈ xs, x.All Node.Solid) ∧ ∀ t ∈ rest, t.Solid := by
  induction h generalizing lo with
  | empty | done | ahead | absent => exact ⟨nofun, hsolid⟩
  | @token accept kind t rest _ =>
    obtain ⟨-, hremarks, hat, -⟩ := hts
    obtain ⟨ht, hrest⟩ := List.forall_mem_cons.mp hsolid
    exact ⟨List.forall_mem_append.mpr ⟨hremarks.solid ht.comments,
      List.forall_mem_singleton.mpr (solid_leaf (hat.nonempty ht.text))⟩, hrest⟩
  | closeAngle hc => exact closeAngle?_solid hts hsolid hc
  | seq h₁ _ ih₁ ih₂ | more h₁ _ ih₁ ih₂ =>
    obtain ⟨_, _, hmid⟩ := h₁.laid hts
    obtain ⟨hx, hsolid⟩ := ih₁ hts hsolid
    obtain ⟨hy, hrest⟩ := ih₂ hmid hsolid
    exact ⟨List.forall_mem_append.mpr ⟨hx, hy⟩, hrest⟩
  | left _ ih | right _ ih | operand _ ih | choose _ ih | phrase _ ih => exact ih hts hsolid
  | @node kind content ts rest xs ys inner hc ih =>
    obtain ⟨hx, hrest⟩ := ih hts hsolid
    obtain ⟨_, hrow, _⟩ := (Reads.node inner hc).laid hts
    refine ⟨fun y hy => ?_, hrest⟩
    obtain ⟨n, ns, hd, rfl⟩ := close?_eq hc
    rcases List.mem_append.mp hy with hfront | hlast
    · exact hx y (List.takeWhile_subset _ hfront)
    · obtain rfl := List.mem_singleton.mp hlast
      refine solid_of_head (hrow.of_mem hy).2.2 rfl rfl fun m hm => hx m ?_
      exact (List.dropWhile_sublist _).subset (hd ▸ hm)
  | role _ ih =>
    obtain ⟨hx, hrest⟩ := ih hts hsolid
    refine ⟨fun x hmem => ?_, hrest⟩
    obtain ⟨y, hy, rfl⟩ := List.mem_map.mp hmem
    unfold Node.withRoleIfCode
    split
    · exact hx y hy
    · refine solid_of_eq ?_ ?_ (hx y hy) <;> cases y <;> rfl
  | @suffix operand suffix ts mid rest xs ys zs h₁ h₂ ha ih₁ ih₂ =>
    obtain ⟨_, _, hmid⟩ := h₁.laid hts
    obtain ⟨hx, hsolid⟩ := ih₁ hts hsolid
    obtain ⟨hy, hrest⟩ := ih₂ hmid hsolid
    obtain ⟨_, hrow, _⟩ := (Reads.suffix h₁ h₂ ha).laid hts
    refine ⟨fun z hz => ?_, hrest⟩
    obtain ⟨left, kind, r, span, children, hdx, hdy, left', -, hspan, hchildren, rfl⟩ := adopt?_eq ha
    have hleft : left ∈ xs := (List.dropWhile_sublist Node.isComment).subset (by simp [hdx])
    have hgrown : Node.mk kind r span children ∈ ys := (List.dropWhile_sublist Node.isComment).subset (by simp [hdy])
    rcases List.mem_append.mp hz with hfront | hlast
    · exact hx z (List.takeWhile_subset _ hfront)
    · obtain rfl := List.mem_singleton.mp hlast
      refine solid_of_head (hrow.of_mem hz).2.2 rfl rfl (List.forall_mem_cons.mpr ⟨?_, ?_⟩)
      · exact solid_of_eq hspan hchildren (hx left hleft)
      · refine List.forall_mem_append.mpr ⟨fun m hm => ?_, fun m hm => ?_⟩
        · exact hy m (List.takeWhile_subset _ hm)
        · exact (hy _ hgrown).child hm

theorem parse?_solid {tree : Node} (h : parse? text = some tree) : ∀ n ∈ tree.children, n.All Node.Solid := by
  obtain ⟨tokens, trailing, nodes, ht, hr, rfl⟩ := parse?_reads h
  obtain ⟨mid, hlined, -, hremarks⟩ := read_lined ht
  obtain ⟨hsolid, htrailing⟩ := read_solid ht
  exact List.forall_mem_append.mpr ⟨(hr.solid hlined hsolid).1, hremarks.solid htrailing⟩

namespace Cursor

variable {tree : Node} {c d : Cursor}

theorem kind_ne_program (hcall : c.isCall = true) : c.kind ≠ .program := fun hkind => by
  rw [isCall, Node.isCall, show c.node.kind = .program from hkind] at hcall
  cases hcall

theorem mem_outward_self (c : Cursor) : c ∈ outward c.node c.above := by
  obtain ⟨n, above⟩ := c
  cases above with
  | nil => exact .head []
  | cons m above => exact .head _

theorem cases_of_mem_outward {n : Node} {above : List Node} (h : In tree ⟨n, above⟩) (hc : c ∈ outward n above) :
    c = ⟨n, above⟩ ∨
      ∃ k ∈ c.node.children, ⟨k, c.node :: c.above⟩ ∈ outward n above ∧ k.Within n := by
  induction above generalizing n with
  | nil => exact .inl (List.mem_singleton.mp hc)
  | cons m above ih =>
    obtain ⟨hup, hn⟩ := h.up
    rcases List.mem_cons.mp hc with rfl | hc
    · exact .inl rfl
    · rcases ih hup hc with rfl | ⟨k, hk, hmem, hwithin⟩
      · exact .inr ⟨n, hn, .head _, .self⟩
      · exact .inr ⟨k, hk, .tail _ hmem, hwithin.child hn⟩

theorem In.root_mem_outward (h : In tree c) : ⟨tree, []⟩ ∈ Cursor.outward c.node c.above := by
  induction h with
  | root => exact .head []
  | down _ _ ih => exact .tail _ ih

theorem In.nested_or_apart (htree : tree.WellFormed) (hc : In tree c) (hd : In tree d) :
    c ∈ Cursor.outward d.node d.above ∨ d ∈ Cursor.outward c.node c.above ∨
      c.span.stop ≤ d.span.start ∨ d.span.stop ≤ c.span.start := by
  induction hc with
  | root => exact .inl hd.root_mem_outward
  | @down n m above up mem ih =>
    rcases ih with hnested | hnested | hapart
    · rcases cases_of_mem_outward hd hnested with hd | ⟨k, hk, hmem, hwithin⟩
      · obtain rfl : ⟨m, above⟩ = d := hd
        exact .inr (.inl (.tail _ (mem_outward_self _)))
      · -- the two go on from the same place, through one child or through two
        by_cases hne : n = k
        · exact .inl (hne ▸ hmem)
        · have hm : m.WellFormed := (htree.within up.within).1
          have hinside := ((hm.child hk).1.within hwithin).2
          have hapart := hm.apart mem hk hne
          simp only [Cursor.span]
          omega
    · exact .inr (.inl (.tail _ hnested))
    · have hm : m.WellFormed := (htree.within up.within).1
      have hinside := (hm.child mem).2
      simp only [Cursor.span] at hapart ⊢
      omega

theorem In.within_of_meets (htree : tree.WellFormed) {n m : Node} {above : List Node}
    (hn : In tree ⟨n, m :: above⟩) (hd : In tree d) (hleft : d.span.start < n.span.stop)
    (hright : n.span.start < d.span.stop) (hpart : m.span.start < d.span.start ∨ d.span.stop < m.span.stop) :
    n.Within d.node := by
  rcases hd.nested_or_apart htree hn with hnested | hnested | hapart
  · rcases List.mem_cons.mp hnested with rfl | habove
    · exact .self
    · obtain ⟨hup, -⟩ := hn.up
      have hinside := ((htree.within hd.within).1.within (hup.outward_within d habove)).2
      simp only [Cursor.span] at hpart
      omega
  · exact hd.outward_within _ hnested
  · simp only [Cursor.span] at hapart hleft hright
    omega

end Cursor

end MockDialect.Java

namespace MockDialect.Source

open Java

/-- All but the root takes up some of the text, with all that is below it. -/
def File.Solid (f : File) : Prop := ∀ ⦃c : Cursor⦄, Cursor.In f.tree c → c.kind ≠ .program → c.node.All Node.Solid

theorem File.Solid.call {f : File} {c : Cursor} (hf : f.Solid) (h : Cursor.In f.tree c) (hcall : c.isCall = true) :
    c.node.All Node.Solid :=
  hf h (Cursor.kind_ne_program hcall)

theorem File.read_solid (source : String) : (File.read source).Solid := by
  intro c h hkind
  have hprogram := (File.read_sound source).program
  obtain ⟨tree, broken, htree, he⟩ := File.read_eq source
  rw [he] at h hprogram
  rcases h.within.cases_child with hroot | ⟨m, hm, hwithin⟩
  · rw [Cursor.kind, hroot] at hkind
    exact absurd hprogram hkind
  · rcases htree with htree | rfl
    · exact hwithin.all (parse?_solid htree m hm)
    · cases hm

end MockDialect.Source
