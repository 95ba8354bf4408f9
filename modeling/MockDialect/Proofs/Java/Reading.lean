import MockDialect.Java.Parse

namespace MockDialect.Java

open Text

/-- What a rule can read. -/
inductive Reads (grammar : Phrase → Rule) : Rule → List Token → List Node → List Token → Prop where
  | empty {ts : List Token} : Reads grammar .empty ts [] ts
  | token {accept : Token → Bool} {kind : Kind} {t : Token} {rest : List Token} (accepted : accept t = true) :
      Reads grammar (.token accept kind) (t :: rest) (t.comments ++ [.leaf kind t.span]) rest
  | closeAngle {ts rest : List Token} {xs : List Node} (closed : Token.closeAngle? ts = some (xs, rest)) :
      Reads grammar .closeAngle ts xs rest
  | seq {a b : Rule} {ts mid rest : List Token} {xs ys : List Node}
      (first : Reads grammar a ts xs mid) (second : Reads grammar b mid ys rest) :
      Reads grammar (.seq a b) ts (xs ++ ys) rest
  | left {a b : Rule} {ts rest : List Token} {xs : List Node} (first : Reads grammar a ts xs rest) :
      Reads grammar (.alt a b) ts xs rest
  | right {a b : Rule} {ts rest : List Token} {xs : List Node} (second : Reads grammar b ts xs rest) :
      Reads grammar (.alt a b) ts xs rest
  | done {item : Rule} {ts : List Token} : Reads grammar (.many item) ts [] ts
  | more {item : Rule} {ts mid rest : List Token} {xs ys : List Node}
      (first : Reads grammar item ts xs mid) (others : Reads grammar (.many item) mid ys rest) :
      Reads grammar (.many item) ts (xs ++ ys) rest
  | node {kind : Kind} {content : Rule} {ts rest : List Token} {xs ys : List Node}
      (inner : Reads grammar content ts xs rest) (closed : Node.close? kind xs = some ys) :
      Reads grammar (.node kind content) ts ys rest
  | role {r : Role} {content : Rule} {ts rest : List Token} {xs : List Node}
      (inner : Reads grammar content ts xs rest) :
      Reads grammar (.role r content) ts (xs.map (Node.withRoleIfCode r)) rest
  | operand {operand suffix : Rule} {ts rest : List Token} {xs : List Node}
      (first : Reads grammar operand ts xs rest) : Reads grammar (.grow operand suffix) ts xs rest
  | suffix {operand suffix : Rule} {ts mid rest : List Token} {xs ys zs : List Node}
      (grown : Reads grammar (.grow operand suffix) ts xs mid) (next : Reads grammar suffix mid ys rest)
      (adopted : Node.adopt? xs ys = some zs) : Reads grammar (.grow operand suffix) ts zs rest
  | ahead {rule : Rule} {ts : List Token} : Reads grammar (.ahead rule) ts [] ts
  | absent {rule : Rule} {ts : List Token} : Reads grammar (.absent rule) ts [] ts
  | choose {select : String → Rule} {ts rest : List Token} {xs : List Node}
      (chosen : Reads grammar (select (Token.headText ts)) ts xs rest) :
      Reads grammar (.choose select) ts xs rest
  | phrase {p : Phrase} {ts rest : List Token} {xs : List Node}
      (inner : Reads grammar (grammar p) ts xs rest) : Reads grammar (.phrase p) ts xs rest

namespace Rule

theorem runSuffixes_reads {grammar : Phrase → Rule} {n : Nat}
    (hrun : ∀ {m : Nat}, m < n → ∀ {rule : Rule} {ts rest : List Token} {xs : List Node},
      run grammar m rule ts = some (xs, rest) → Reads grammar rule ts xs rest)
    {operand suffix : Rule} {start ts rest : List Token} {xs zs : List Node}
    (hgrown : Reads grammar (.grow operand suffix) start xs ts)
    (h : runSuffixes grammar n suffix xs ts = (zs, rest)) :
    Reads grammar (.grow operand suffix) start zs rest := by
  induction n generalizing xs ts with
  | zero =>
    simp only [runSuffixes, Prod.mk.injEq] at h
    obtain ⟨rfl, rfl⟩ := h
    exact hgrown
  | succ n ih =>
    rw [runSuffixes] at h
    split at h
    · obtain ⟨rfl, rfl⟩ := Prod.mk.injEq .. ▸ h
      exact hgrown
    · next ys mid hs =>
      split at h
      · obtain ⟨rfl, rfl⟩ := Prod.mk.injEq .. ▸ h
        exact hgrown
      · next grown ha =>
        have hnext := hrun (Nat.lt_succ_self n) hs
        exact ih (fun hm => hrun (Nat.lt_succ_of_lt hm)) (.suffix hgrown hnext ha) h

theorem run_reads {grammar : Phrase → Rule} {n : Nat} {rule : Rule} {ts rest : List Token} {xs : List Node}
    (h : run grammar n rule ts = some (xs, rest)) : Reads grammar rule ts xs rest := by
  induction n using Nat.strongRecOn generalizing rule ts rest xs with
  | ind n ih =>
    cases n with
    | zero => simp [run] at h
    | succ n =>
      have hn {rule : Rule} {ts rest : List Token} {xs : List Node}
          (h : run grammar n rule ts = some (xs, rest)) : Reads grammar rule ts xs rest :=
        ih n (Nat.lt_succ_self n) h
      cases rule with
      | empty =>
        simp only [run, Option.some.injEq, Prod.mk.injEq] at h
        obtain ⟨rfl, rfl⟩ := h
        exact .empty
      | token accept kind =>
        simp only [run] at h
        split at h
        · split at h
          · next ha =>
            simp only [Option.some.injEq, Prod.mk.injEq] at h
            obtain ⟨rfl, rfl⟩ := h
            exact .token ha
          · cases h
        · cases h
      | closeAngle => exact .closeAngle h
      | seq a b =>
        simp only [run] at h
        split at h
        · cases h
        · next ys mid ha =>
          split at h
          · cases h
          · next zs last hb =>
            simp only [Option.some.injEq, Prod.mk.injEq] at h
            obtain ⟨rfl, rfl⟩ := h
            exact .seq (hn ha) (hn hb)
      | alt a b =>
        simp only [run] at h
        split at h
        · next found ha =>
          simp only [Option.some.injEq] at h
          subst h
          exact .left (hn ha)
        · exact .right (hn h)
      | many item =>
        simp only [run] at h
        split at h
        · simp only [Option.some.injEq, Prod.mk.injEq] at h
          obtain ⟨rfl, rfl⟩ := h
          exact .done
        · next ys mid ha =>
          split at h
          · cases h
          · next zs last hb =>
            simp only [Option.some.injEq, Prod.mk.injEq] at h
            obtain ⟨rfl, rfl⟩ := h
            exact .more (hn ha) (hn hb)
      | node kind content =>
        simp only [run] at h
        split at h
        · cases h
        · next ys mid hc =>
          obtain ⟨zs, hz, he⟩ := Option.map_eq_some_iff.mp h
          simp only [Prod.mk.injEq] at he
          obtain ⟨rfl, rfl⟩ := he
          exact .node (hn hc) hz
      | role r content =>
        simp only [run] at h
        split at h
        · cases h
        · next ys mid hc =>
          simp only [Option.some.injEq, Prod.mk.injEq] at h
          obtain ⟨rfl, rfl⟩ := h
          exact .role (hn hc)
      | grow operand suffix =>
        simp only [run] at h
        split at h
        · cases h
        · next ys mid ho =>
          simp only [Option.some.injEq] at h
          exact runSuffixes_reads (fun hm => ih _ (Nat.lt_succ_of_lt hm)) (.operand (hn ho)) h
      | ahead rule =>
        simp only [run] at h
        obtain ⟨_, _, he⟩ := Option.map_eq_some_iff.mp h
        simp only [Prod.mk.injEq] at he
        obtain ⟨rfl, rfl⟩ := he
        exact .ahead
      | absent rule =>
        simp only [run] at h
        split at h
        · simp only [Option.some.injEq, Prod.mk.injEq] at h
          obtain ⟨rfl, rfl⟩ := h
          exact .absent
        · cases h
      | choose select => exact .choose (hn (by simpa only [run] using h))
      | phrase p => exact .phrase (hn (by simpa only [run] using h))

end Rule

theorem parse?_reads {text : List Char} {tree : Node} (h : parse? text = some tree) :
    ∃ tokens trailing nodes, Token.read text = some (tokens, trailing) ∧
      Reads Grammar.java (.many Grammar.topLevel) tokens nodes [] ∧
      tree = .mk .program none
        ⟨((nodes ++ trailing).head?.map (·.span.start)).getD (width text), width text⟩
        (nodes ++ trailing) := by
  unfold parse? at h
  split at h
  · cases h
  · next tokens trailing ht =>
    split at h
    · next nodes hr =>
      simp only [Option.some.injEq] at h
      exact ⟨tokens, trailing, nodes, ht, Rule.run_reads hr, h.symm⟩
    · cases h

end MockDialect.Java
