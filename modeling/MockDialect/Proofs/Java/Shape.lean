import MockDialect.Proofs.Java.Placement
import MockDialect.Proofs.Java.Soundness

namespace MockDialect.Java

open Text

/-- What is known of the children of a node by its kind. -/
structure Node.Formed (text : List Char) (n : Node) : Prop where
  named : n.isCall = true → ∃ m ∈ n.children, m.role = some .name
  applied : n.isCall = true → ∃ m ∈ n.children, m.role = some .arguments
  /-- Only the first child can be the qualifier. -/
  qualified : ∀ m ∈ n.children.tail, m.role ≠ some .object
  bare : n.kind.isBare = true → n.children = []
  braced : n.kind.isBraced = true → CharAt text n.span.start '\x7b' ∧ ∃ brace rest, n.children = brace :: rest ∧
    brace.kind = .token ∧ brace.span = ⟨n.span.start, n.span.start + 1⟩
  ended : n.kind.isHeader = true → ∃ front last, n.children = front ++ [last] ∧ last.kind = .token ∧
    n.span.stop = last.span.start + 1 ∧ CharAt text last.span.start ';'
  bodied : n.kind = .methodDeclaration → ∀ m ∈ n.children, m.role = some .body → m.kind = .block
  led : n.isCall = true → ∃ first rest, n.children = first :: rest ∧
    (first.role = some .object ∨ first.children = [])
  argued : n.isCall = true → ∀ m ∈ n.children, m.role = some .arguments → m.kind = .argumentList
  parenthesized : n.kind.isParenthesized = true → CharAt text n.span.start '(' ∧
    ∃ first rest, n.children = first :: rest ∧ first.kind = .token
  stated : n.kind = .expressionStatement → ∃ first rest last, n.children = first :: rest ++ [last] ∧
    first.kind ≠ .token ∧ last.kind = .token ∧ n.span.stop = last.span.start + 1

/-- Only the first child of a call can be its qualifier. -/
def Node.Qualified (n : Node) : Prop := n.isCall = true → ∀ m ∈ n.children.tail, m.role ≠ some .object

/-- What edits rely on where they are put. -/
structure Node.Regular (text : List Char) (n : Node) : Prop where
  qualified : n.Qualified
  bare : n.kind = .token → n.children = []
  braced : n.kind = .classBody ∨ n.kind = .block → CharAt text n.span.start '\x7b' ∧ ∃ brace rest,
    n.children = brace :: rest ∧ brace.kind = .token ∧ brace.span = ⟨n.span.start, n.span.start + 1⟩
  ended : n.kind.isHeader = true → ∃ front last, n.children = front ++ [last] ∧ last.kind = .token ∧
    n.span.stop = last.span.start + 1 ∧ CharAt text last.span.start ';'
  bodied : n.kind = .methodDeclaration → ∀ m ∈ n.children, m.role = some .body → m.kind = .block

variable {text : List Char}

theorem Node.Formed.regular {n : Node} (h : n.Formed text) : n.Regular text where
  qualified := fun _ => h.qualified
  bare := fun hkind => h.bare (by rw [hkind]; rfl)
  braced := fun hkind => h.braced (by rcases hkind with hkind | hkind <;> rw [hkind] <;> rfl)
  ended := h.ended
  bodied := h.bodied

theorem formed_leaf {kind : Kind} {span : Span}
    (h : kind ≠ .methodInvocation ∧ kind.isBraced = false ∧ kind.isHeader = false ∧ kind.isParenthesized = false ∧
      kind ≠ .expressionStatement) :
    (Node.leaf kind span).All (Node.Formed text) := by
  obtain ⟨hcall, hbody, hheader, hparenthesized, hstatement⟩ := h
  have hcall' : (Node.leaf kind span).isCall ≠ true := by simpa [Node.isCall, Node.leaf, Node.kind] using hcall
  exact .leaf {
    named := fun h => absurd h hcall'
    applied := fun h => absurd h hcall'
    qualified := nofun
    bare := fun _ => rfl
    braced := fun h => absurd (hbody.symm.trans h) Bool.false_ne_true
    ended := fun h => absurd (hheader.symm.trans h) Bool.false_ne_true
    bodied := fun _ _ hm => nomatch hm
    led := fun h => absurd h hcall'
    argued := fun h => absurd h hcall'
    parenthesized := fun h => absurd (hparenthesized.symm.trans h) Bool.false_ne_true
    stated := fun h => absurd h hstatement }

theorem Remarks.formed {ns : List Node} (h : Remarks ns) : ∀ n ∈ ns, n.All (Node.Formed text) := by
  intro n hn
  obtain ⟨kind, span, rfl, hk⟩ := h n hn
  apply formed_leaf
  cases kind <;> simp_all [Kind.isComment]

theorem Remarks.role {ns : List Node} (h : Remarks ns) : ∀ n ∈ ns, n.role = none := by
  intro n hn
  obtain ⟨kind, span, rfl, -⟩ := h n hn
  rfl

theorem Remarks.isComment {ns : List Node} (h : Remarks ns) : ∀ n ∈ ns, n.isComment = true := by
  intro n hn
  obtain ⟨kind, span, rfl, hk⟩ := h n hn
  exact hk

theorem Token.At.charAt {t : Token} {c : Char} (h : t.At text) (ht : t.text.toList = [c])
    (hc : c.utf8Size = 1) : CharAt text t.span.start c ∧ t.span.stop = t.span.start + 1 := by
  obtain ⟨before, after, he, hs⟩ := h
  rw [ht] at he hs
  exact ⟨⟨before, after, by simp [he], by rw [hs]⟩, by simp [hs, hc]⟩

variable {lo hi : Nat} {rule : Rule} {ts rest : List Token} {xs : List Node}

theorem close?_eq {kind : Kind} {ys : List Node} (h : Node.close? kind xs = some ys) :
    ∃ n ns, xs.dropWhile Node.isComment = n :: ns ∧
      ys = xs.takeWhile Node.isComment ++ [.mk kind none (Node.spanOf n ns) (n :: ns)] := by
  unfold Node.close? at h
  split at h
  · cases h
  · next n ns hd =>
    simp only [Option.some.injEq] at h
    exact ⟨n, ns, hd, h.symm⟩

theorem forall_of_close? {p : Node → Prop} {kind : Kind} {ys : List Node} (hc : Node.close? kind xs = some ys)
    (hxs : ∀ x ∈ xs, x.isComment = true → p x)
    (hnode : ∀ n ns, xs.dropWhile Node.isComment = n :: ns → p (.mk kind none (Node.spanOf n ns) (n :: ns))) :
    ∀ y ∈ ys, p y := by
  obtain ⟨n, ns, hd, rfl⟩ := close?_eq hc
  refine List.forall_mem_append.mpr ⟨fun x hx => ?_, List.forall_mem_singleton.mpr (hnode n ns hd)⟩
  exact hxs x (List.takeWhile_subset _ hx) (List.all_eq_true.mp List.all_takeWhile x hx)

theorem closeAngle?_eq (h : Token.closeAngle? ts = some (xs, rest)) :
    ∃ t more span, ts = t :: more ∧ xs = t.comments ++ [.leaf .token span] := by
  cases ts with
  | nil => cases h
  | cons t more =>
    simp only [Token.closeAngle?] at h
    split at h
    · simp only [Option.some.injEq, Prod.mk.injEq] at h
      exact ⟨t, more, t.span, rfl, h.1.symm⟩
    · simp only [Option.some.injEq, Prod.mk.injEq] at h
      exact ⟨t, more, _, rfl, h.1.symm⟩
    · cases h

theorem role_eq_none_of_token {comments : List Node} {kind : Kind} {span : Span} (h : Remarks comments) :
    ∀ x ∈ comments ++ [.leaf kind span], x.role = none :=
  List.forall_mem_append.mpr ⟨h.role, List.forall_mem_singleton.mpr rfl⟩

theorem Reads.role_ne_object (h : Reads Grammar.java rule ts xs rest) (hs : rule.Sound)
    (hts : Lined text lo ts hi) : ∀ x ∈ xs, x.role ≠ some .object := by
  induction h generalizing lo with
  | empty | done | ahead | absent => simp
  | token _ =>
    intro x hx
    rw [role_eq_none_of_token hts.2.1 x hx]
    exact nofun
  | closeAngle hc =>
    obtain ⟨t, more, span, rfl, rfl⟩ := closeAngle?_eq hc
    intro x hx
    rw [role_eq_none_of_token hts.2.1 x hx]
    exact nofun
  | seq h₁ h₂ ih₁ ih₂ =>
    obtain ⟨_, _, hmid⟩ := h₁.laid hts
    exact List.forall_mem_append.mpr ⟨ih₁ hs.1 hts, ih₂ hs.2 hmid⟩
  | more h₁ h₂ ih₁ ih₂ =>
    obtain ⟨_, _, hmid⟩ := h₁.laid hts
    exact List.forall_mem_append.mpr ⟨ih₁ hs hts, ih₂ hs hmid⟩
  | left _ ih => exact ih hs.1 hts
  | right _ ih => exact ih hs.2 hts
  | operand _ ih => exact ih hs.1 hts
  | choose _ ih => exact ih (hs _) hts
  | phrase _ ih => exact ih (java_sound _) hts
  | node _ hc ih => exact forall_of_close? hc (fun x hx _ => ih hs.1 hts x hx) fun _ _ _ => nofun
  | @role r content ts rest xs _ ih =>
    intro x hx
    obtain ⟨y, hy, rfl⟩ := List.mem_map.mp hx
    unfold Node.withRoleIfCode
    split
    · exact ih hs.2 hts y hy
    · cases y
      simpa [Node.withRole, Node.role] using hs.1
  | suffix h₁ h₂ ha ih₁ ih₂ =>
    obtain ⟨left, kind, r, span, children, -, -, left', -, -, -, rfl⟩ := adopt?_eq ha
    intro x hx
    rcases List.mem_append.mp hx with hx | hx
    · exact ih₁ hs hts x (List.takeWhile_subset _ hx)
    · rw [List.mem_singleton.mp hx]
      simp [Node.role]

theorem Reads.brings {r : Role} (h : Reads Grammar.java rule ts xs rest) (hb : rule.Brings r) :
    ∃ x ∈ xs, x.role = some r ∧ x.isComment = false := by
  induction h with
  | seq _ _ ih₁ ih₂ =>
    rcases hb with hb | hb
    · obtain ⟨x, hx, hr⟩ := ih₁ hb
      exact ⟨x, List.mem_append_left _ hx, hr⟩
    · obtain ⟨x, hx, hr⟩ := ih₂ hb
      exact ⟨x, List.mem_append_right _ hx, hr⟩
  | @role r' content ts rest xs inner _ =>
    -- the code node that the content ends with is the one that gets the role
    have hlast : r' = r ∧ ∃ x ∈ xs, x.isComment = false := by
      cases inner with
      | @token accept kind t rest _ =>
        obtain ⟨rfl, hk⟩ := hb
        exact ⟨rfl, .leaf kind t.span, by simp, hk⟩
      | phrase inner =>
        obtain ⟨rfl, rfl⟩ := hb
        cases inner with
        | node _ hc =>
          obtain ⟨n, ns, -, rfl⟩ := close?_eq hc
          exact ⟨rfl, .mk .argumentList none (Node.spanOf n ns) (n :: ns), by simp, rfl⟩
      | _ => cases hb
    obtain ⟨rfl, x, hx, hcode⟩ := hlast
    refine ⟨x.withRoleIfCode r', List.mem_map_of_mem hx, ?_⟩
    cases x
    simp_all [Node.withRoleIfCode, Node.withRole, Node.role, Node.isComment, Node.kind]
  | _ => cases hb

theorem Reads.begins {word : String} (h : Reads Grammar.java rule ts xs rest) (hb : rule.Begins word) :
    ∃ t more nodes, ts = t :: more ∧ xs = t.comments ++ .leaf .token t.span :: nodes ∧ t.text = word := by
  induction h with
  | @token accept kind t rest ha =>
    obtain ⟨rfl, ht⟩ := hb
    exact ⟨t, rest, [], rfl, rfl, ht t ha⟩
  | @seq a b ts mid rest xs ys _ _ ih _ =>
    obtain ⟨t, more, nodes, hts, hxs, ht⟩ := ih hb
    exact ⟨t, more, nodes ++ ys, hts, by simp [hxs], ht⟩
  | _ => cases hb

theorem Reads.ends {word : String} (h : Reads Grammar.java rule ts xs rest) (he : rule.Ends word)
    (hts : Lined text lo ts hi) :
    ∃ (t : Token) (nodes : List Node), xs = nodes ++ [.leaf .token t.span] ∧ t.text = word ∧ t.At text := by
  induction h generalizing lo with
  | @token accept kind t rest ha =>
    obtain ⟨rfl, ht⟩ := he
    exact ⟨t, t.comments, rfl, ht t ha, hts.2.2.1⟩
  | @seq a b ts mid rest xs ys h₁ _ _ ih =>
    obtain ⟨_, _, hmid⟩ := h₁.laid hts
    obtain ⟨t, nodes, hys, ht⟩ := ih he hmid
    exact ⟨t, xs ++ nodes, by simp [hys], ht⟩
  | _ => cases he

theorem Reads.role_of_comment (h : Reads Grammar.java rule ts xs rest) (hts : Lined text lo ts hi) :
    ∀ x ∈ xs, x.isComment = true → x.role = none := by
  induction h generalizing lo with
  | empty | done | ahead | absent => simp
  | token _ => exact fun x hx _ => role_eq_none_of_token hts.2.1 x hx
  | closeAngle hc =>
    obtain ⟨t, more, span, rfl, rfl⟩ := closeAngle?_eq hc
    exact fun x hx _ => role_eq_none_of_token hts.2.1 x hx
  | seq h₁ _ ih₁ ih₂ | more h₁ _ ih₁ ih₂ =>
    obtain ⟨_, _, hmid⟩ := h₁.laid hts
    exact List.forall_mem_append.mpr ⟨ih₁ hts, ih₂ hmid⟩
  | left _ ih | right _ ih | operand _ ih | choose _ ih | phrase _ ih => exact ih hts
  | node _ hc ih => exact forall_of_close? hc (fun x hx _ => ih hts x hx) fun _ _ _ _ => rfl
  | role _ ih =>
    intro x hx
    obtain ⟨y, hy, rfl⟩ := List.mem_map.mp hx
    unfold Node.withRoleIfCode
    split
    · exact ih hts y hy
    · next hcode =>
      intro hcomment
      cases y
      exact absurd hcomment hcode
  | suffix h₁ h₂ ha ih₁ ih₂ =>
    obtain ⟨left, kind, r, span, children, -, -, left', -, -, -, rfl⟩ := adopt?_eq ha
    intro x hx
    rcases List.mem_append.mp hx with hx | hx
    · exact ih₁ hts x ((List.takeWhile_sublist _).subset hx)
    · rw [List.mem_singleton.mp hx]
      exact fun _ => rfl

theorem Reads.role_of_close {kind : Kind} {ys : List Node} (h : Reads Grammar.java rule ts xs rest)
    (hts : Lined text lo ts hi) (hc : Node.close? kind xs = some ys) : ∀ y ∈ ys, y.role = none :=
  forall_of_close? hc (h.role_of_comment hts) fun _ _ _ => rfl

theorem Reads.plain (h : Reads Grammar.java rule ts xs rest) (hp : rule.Plain) (hts : Lined text lo ts hi) :
    ∀ x ∈ xs, x.role = none := by
  induction h generalizing lo with
  | empty | done | ahead | absent => simp
  | token _ => exact role_eq_none_of_token hts.2.1
  | closeAngle hc =>
    obtain ⟨t, more, span, rfl, rfl⟩ := closeAngle?_eq hc
    exact role_eq_none_of_token hts.2.1
  | seq h₁ _ ih₁ ih₂ =>
    obtain ⟨_, _, hmid⟩ := h₁.laid hts
    exact List.forall_mem_append.mpr ⟨ih₁ hp.1 hts, ih₂ hp.2 hmid⟩
  | more h₁ _ ih₁ ih₂ =>
    obtain ⟨_, _, hmid⟩ := h₁.laid hts
    exact List.forall_mem_append.mpr ⟨ih₁ hp hts, ih₂ hp hmid⟩
  | left _ ih => exact ih hp.1 hts
  | right _ ih => exact ih hp.2 hts
  | choose _ ih => exact ih (hp _) hts
  | node inner hc _ => exact inner.role_of_close hts hc
  | operand | suffix => exact hp.2.2.elim
  | role | phrase => exact hp.elim

theorem Reads.holds {r : Role} {p : Phrase} {kind : Kind} {content : Rule} (hp : Grammar.java p = .node kind content)
    (h : Reads Grammar.java rule ts xs rest) (hb : rule.Holds r p) (hts : Lined text lo ts hi) :
    ∀ x ∈ xs, x.role = some r → x.kind = kind := by
  have absent_role : ∀ {x : Node}, x.role = none → x.role = some r → x.kind = kind := fun hn hs => by
    rw [hn] at hs
    cases hs
  induction h generalizing lo with
  | empty | done | ahead | absent => simp
  | token _ => exact fun x hx => absent_role (role_eq_none_of_token hts.2.1 x hx)
  | closeAngle hc =>
    obtain ⟨t, more, span, rfl, rfl⟩ := closeAngle?_eq hc
    exact fun x hx => absent_role (role_eq_none_of_token hts.2.1 x hx)
  | seq h₁ _ ih₁ ih₂ =>
    obtain ⟨_, _, hmid⟩ := h₁.laid hts
    exact List.forall_mem_append.mpr ⟨ih₁ hb.1 hts, ih₂ hb.2 hmid⟩
  | more h₁ _ ih₁ ih₂ =>
    obtain ⟨_, _, hmid⟩ := h₁.laid hts
    exact List.forall_mem_append.mpr ⟨ih₁ hb hts, ih₂ hb hmid⟩
  | left _ ih => exact ih hb.1 hts
  | right _ ih => exact ih hb.2 hts
  | choose _ ih => exact ih (hb _) hts
  | phrase inner _ => exact fun x hx => absent_role (inner.plain hb hts x hx)
  | node inner hc _ => exact fun x hx => absent_role (inner.role_of_close hts hc x hx)
  | @role r' content ts rest xs inner _ =>
    intro x hx hr
    obtain ⟨y, hy, rfl⟩ := List.mem_map.mp hx
    unfold Node.withRoleIfCode at hr ⊢
    split at hr
    · next hcomment =>
      rw [if_pos hcomment]
      exact absent_role (inner.role_of_comment hts y hy hcomment) hr
    · next hcode =>
      rw [if_neg hcode]
      obtain rfl : r' = r := by
        cases y
        exact Option.some.inj hr
      obtain rfl := hb rfl
      cases inner with
      | phrase inner =>
        rw [hp] at inner
        cases inner with
        | node _ hc =>
          obtain ⟨n, ns, -, rfl⟩ := close?_eq hc
          rcases List.mem_append.mp hy with hy | hy
          · exact absurd (List.all_eq_true.mp List.all_takeWhile y hy) hcode
          · rw [List.mem_singleton.mp hy]
            rfl
  | operand | suffix => exact hb.2.2.elim

theorem Reads.grows (h : Reads Grammar.java rule ts xs rest) (hg : rule.Grows) (hs : rule.Sound)
    (hts : Lined text lo ts hi) : ∀ x ∈ xs, x.isComment = false →
      (x.kind.isBare = false ∧ x.kind.isBraced = false ∧ x.kind.isHeader = false ∧ x.kind ≠ .methodDeclaration ∧
        x.kind.isParenthesized = false ∧ x.kind ≠ .expressionStatement) ∧
        ∀ m ∈ x.children, m.role ≠ some .object := by
  induction h generalizing lo with
  | node inner hc _ =>
    refine forall_of_close? hc (fun x _ hcomment hcode => absurd (hcomment.symm.trans hcode) nofun) ?_
    intro n ns hd _
    refine ⟨hg, fun m hm => inner.role_ne_object hs.1 hts m ?_⟩
    rw [Node.children_mk, ← hd] at hm
    exact (List.dropWhile_sublist _).subset hm
  | left _ ih => exact ih hg.1 hs.1 hts
  | right _ ih => exact ih hg.2 hs.2 hts
  | choose _ ih => exact ih (hg _) (hs _) hts
  | absent => exact nofun
  | _ => cases hg

theorem formed_of_eq {n m : Node} (hkind : m.kind = n.kind) (hspan : m.span = n.span)
    (hchildren : m.children = n.children) (h : n.All (Node.Formed text)) : m.All (Node.Formed text) := by
  obtain ⟨hnamed, happlied, hqualified, hbare, hbraced, hended, hbodied, hled, hargued, hparenthesized, hstated⟩ :=
    h.self
  refine .mk ⟨?_, ?_, ?_, ?_, ?_, ?_, ?_, ?_, ?_, ?_, ?_⟩ fun k hk => h.child (hchildren ▸ hk)
  all_goals
    simp only [Node.isCall] at *
    try rw [hkind]
    try rw [hspan]
    try rw [hchildren]
    assumption

theorem mem_dropWhile {x : Node} (hx : x ∈ xs) (hcode : x.isComment = false) :
    x ∈ xs.dropWhile Node.isComment := by
  rw [← List.takeWhile_append_dropWhile (p := Node.isComment) (l := xs)] at hx
  rcases List.mem_append.mp hx with hx | hx
  · rw [List.all_eq_true.mp List.all_takeWhile x hx] at hcode
    cases hcode
  · exact hx

theorem Reads.opens {word : String} {c : Char} {n : Node} {ns : List Node} (h : Reads Grammar.java rule ts xs rest)
    (hb : rule.Begins word) (hword : word.toList = [c]) (hc : c.utf8Size = 1) (hts : Lined text lo ts hi)
    (hd : xs.dropWhile Node.isComment = n :: ns) :
    CharAt text n.span.start c ∧ n.kind = .token ∧ n.span = ⟨n.span.start, n.span.start + 1⟩ := by
  obtain ⟨t, more, nodes, rfl, rfl, ht⟩ := h.begins hb
  obtain ⟨-, hremarks, hat, -⟩ := hts
  rw [List.dropWhile_append_of_pos hremarks.isComment] at hd
  obtain ⟨rfl, rfl⟩ : n = .leaf .token t.span ∧ ns = nodes := by
    simpa [Node.isComment, Node.leaf, Node.kind, Kind.isComment, eq_comm] using hd
  obtain ⟨hchar, hstop⟩ := hat.charAt (ht ▸ hword) hc
  refine ⟨hchar, rfl, ?_⟩
  change t.span = ⟨t.span.start, t.span.start + 1⟩
  rw [← hstop]

theorem Reads.closes {word : String} {c : Char} {n : Node} {ns : List Node} (h : Reads Grammar.java rule ts xs rest)
    (he : rule.Ends word) (hword : word.toList = [c]) (hc : c.utf8Size = 1) (hts : Lined text lo ts hi)
    (hd : xs.dropWhile Node.isComment = n :: ns) :
    ∃ front last, n :: ns = front ++ [last] ∧ last.kind = .token ∧
      (Node.spanOf n ns).stop = last.span.start + 1 ∧ CharAt text last.span.start c := by
  obtain ⟨t, nodes, rfl, ht, hat⟩ := h.ends he hts
  obtain ⟨hchar, hstop⟩ := hat.charAt (ht ▸ hword) hc
  have hrow : n :: ns = nodes.dropWhile Node.isComment ++ [.leaf .token t.span] := by
    rw [← hd, List.dropWhile_append]
    split
    · next hempty => simp [List.isEmpty_iff.mp hempty, Node.isComment, Node.leaf, Node.kind, Kind.isComment]
    · rfl
  refine ⟨nodes.dropWhile Node.isComment, .leaf .token t.span, hrow, rfl, ?_, hchar⟩
  change ((n :: ns).getLast?.getD n).span.stop = _
  rw [hrow, List.getLast?_concat]
  exact hstop

theorem dropWhile_comments {front ns : List Node} {n : Node} (hfront : ∀ x ∈ front, x.isComment = true)
    (hn : n.isComment = false) : (front ++ n :: ns).dropWhile Node.isComment = n :: ns := by
  rw [List.dropWhile_append_of_pos hfront]
  exact List.dropWhile_cons_of_neg (Bool.eq_false_iff.mp hn)

theorem dropWhile_ends {nodes : List Node} (span : Span) :
    (nodes ++ [Node.leaf .token span]).dropWhile Node.isComment =
      nodes.dropWhile Node.isComment ++ [.leaf .token span] := by
  have hcode : (Node.leaf .token span).isComment = false := rfl
  rw [List.dropWhile_append, List.dropWhile_cons_of_neg (Bool.eq_false_iff.mp hcode)]
  split
  · next hnil => rw [List.isEmpty_iff.mp hnil, List.nil_append]
  · rfl

theorem isComment_of_dropWhile {n : Node} {ns : List Node} (h : xs.dropWhile Node.isComment = n :: ns) :
    n.isComment = false := by
  have hhead := List.head?_dropWhile_not Node.isComment xs
  simpa [h] using hhead

theorem isComment_withRoleIfCode (r : Role) (n : Node) : (n.withRoleIfCode r).isComment = n.isComment := by
  unfold Node.withRoleIfCode
  split
  · rfl
  · cases n
    rfl

theorem Reads.leads (h : Reads Grammar.java rule ts xs rest) (hl : rule.Leads) (hts : Lined text lo ts hi) :
    ∃ n ns, xs.dropWhile Node.isComment = n :: ns ∧ n.children = [] := by
  induction h generalizing lo with
  | @token accept kind t rest _ => exact ⟨.leaf kind t.span, [], dropWhile_comments hts.2.1.isComment hl, rfl⟩
  | @seq a b ts mid rest xs ys _ _ ih _ =>
    obtain ⟨n, ns, hd, hn⟩ := ih hl hts
    refine ⟨n, ns ++ ys, ?_, hn⟩
    rw [List.dropWhile_append, hd]
    rfl
  | @role r content ts rest xs _ ih =>
    obtain ⟨n, ns, hd, hn⟩ := ih hl hts
    refine ⟨n.withRoleIfCode r, ns.map (Node.withRoleIfCode r), ?_, ?_⟩
    · have hsame : Node.isComment ∘ Node.withRoleIfCode r = Node.isComment := funext (isComment_withRoleIfCode r)
      rw [List.dropWhile_map, hsame, hd, List.map_cons]
    · unfold Node.withRoleIfCode
      split
      · exact hn
      · cases n
        exact hn
  | _ => cases hl

theorem Reads.headed (h : Reads Grammar.java rule ts xs rest) (hh : rule.Headed) (hs : rule.Sound)
    (hts : Lined text lo ts hi) : ∃ n ns, xs.dropWhile Node.isComment = n :: ns ∧ n.kind ≠ .token := by
  induction h generalizing lo with
  | @token accept kind t rest _ => exact ⟨.leaf kind t.span, [], dropWhile_comments hts.2.1.isComment hh.1, hh.2⟩
  | @node kind content ts rest xs ys _ hc _ =>
    obtain ⟨n, ns, -, rfl⟩ := close?_eq hc
    exact ⟨.mk kind none (Node.spanOf n ns) (n :: ns), [],
      dropWhile_comments (List.all_eq_true.mp List.all_takeWhile) hh.1, hh.2⟩
  | @seq a b ts mid rest xs ys h₁ h₂ ih₁ ih₂ =>
    obtain ⟨_, _, hmid⟩ := h₁.laid hts
    rcases hh.seq with ⟨c, rfl, hb⟩ | ha
    · cases h₁
      exact ih₂ hb hs.2 hts
    · obtain ⟨n, ns, hd, hn⟩ := ih₁ ha hs.1 hts
      refine ⟨n, ns ++ ys, ?_, hn⟩
      rw [List.dropWhile_append, hd]
      rfl
  | left _ ih => exact ih hh.1 hs.1 hts
  | right _ ih => exact ih hh.2 hs.2 hts
  | operand _ ih => exact ih hh.1 hs.1 hts
  | choose _ ih => exact ih (hh _) (hs _) hts
  | phrase _ ih => exact ih (java_headed hh) (java_sound _) hts
  | @suffix operand suffix ts mid rest xs ys zs h₁ h₂ ha _ _ =>
    obtain ⟨_, _, hmid⟩ := h₁.laid hts
    obtain ⟨left, kind, r, span, children, -, hdy, left', -, -, -, rfl⟩ := adopt?_eq ha
    have hcode := isComment_of_dropWhile hdy
    have hy : Node.mk kind r span children ∈ ys := (List.dropWhile_sublist Node.isComment).subset (by simp [hdy])
    obtain ⟨⟨hbare, -⟩, -⟩ := h₂.grows hs.2.2 hs.2.1 hmid _ hy hcode
    refine ⟨_, [], dropWhile_comments (List.all_eq_true.mp List.all_takeWhile) hcode, fun htoken => ?_⟩
    rw [show kind = .token from htoken] at hbare
    cases hbare
  | _ => cases hh

theorem adopt?_object {ys zs : List Node} (h : Node.adopt? xs ys = some zs) :
    ∀ z ∈ zs, z.isCall = true → ∃ first rest, z.children = first :: rest ∧ first.role = some .object := by
  unfold Node.adopt? at h
  split at h
  · next left kind r span children _ _ =>
    obtain rfl := Option.some.inj h
    refine List.forall_mem_append.mpr ⟨fun z hz hcall => ?_, List.forall_mem_singleton.mpr fun hcall => ?_⟩
    · have hcomment : z.isComment = true := List.all_eq_true.mp List.all_takeWhile z hz
      rw [Node.isComment, show z.kind = .methodInvocation from beq_iff_eq.mp hcall] at hcomment
      cases hcomment
    · obtain rfl : kind = .methodInvocation := beq_iff_eq.mp hcall
      exact ⟨_, _, rfl, by cases left; rfl⟩
  · cases h

theorem formed_close {kind : Kind} {n : Node} {ns : List Node} (h : Reads Grammar.java rule ts xs rest)
    (hs : rule.Sound) (hf : rule.Fills kind) (hts : Lined text lo ts hi)
    (hd : xs.dropWhile Node.isComment = n :: ns) :
    (Node.mk kind none (Node.spanOf n ns) (n :: ns)).Formed text where
  named hcall := by
    obtain ⟨x, hx, hr, hcode⟩ := h.brings (hf.2.1 (beq_iff_eq.mp hcall)).1
    exact ⟨x, hd ▸ mem_dropWhile hx hcode, hr⟩
  applied hcall := by
    obtain ⟨x, hx, hr, hcode⟩ := h.brings (hf.2.1 (beq_iff_eq.mp hcall)).2
    exact ⟨x, hd ▸ mem_dropWhile hx hcode, hr⟩
  qualified := by
    intro m hm
    have hmem : m ∈ xs.dropWhile Node.isComment := hd ▸ List.mem_of_mem_tail hm
    exact h.role_ne_object hs hts m ((List.dropWhile_sublist _).subset hmem)
  bare hkind := absurd (hf.1.symm.trans hkind) Bool.false_ne_true
  braced hbody := by
    obtain ⟨hchar, htoken, hspan⟩ := h.opens (hf.2.2.1 hbody) rfl rfl hts hd
    exact ⟨hchar, n, ns, rfl, htoken, hspan⟩
  ended hheader := h.closes (hf.2.2.2.1 hheader) rfl rfl hts hd
  bodied hmethod := by
    intro m hm hr
    have hmem : m ∈ xs.dropWhile Node.isComment := hd ▸ hm
    exact h.holds rfl (hf.2.2.2.2.1 hmethod) hts m ((List.dropWhile_sublist _).subset hmem) hr
  led hcall := by
    obtain ⟨first, rest, hleads, hfirst⟩ := h.leads (hf.2.2.2.2.2.1 (beq_iff_eq.mp hcall)).1 hts
    exact ⟨first, rest, hd.symm.trans hleads, .inr hfirst⟩
  argued hcall := by
    intro m hm hr
    have hmem : m ∈ xs.dropWhile Node.isComment := hd ▸ hm
    exact h.holds rfl (hf.2.2.2.2.2.1 (beq_iff_eq.mp hcall)).2 hts m ((List.dropWhile_sublist _).subset hmem) hr
  parenthesized hkind := by
    obtain ⟨hchar, htoken, -⟩ := h.opens (hf.2.2.2.2.2.2.1 hkind) rfl rfl hts hd
    exact ⟨hchar, n, ns, rfl, htoken⟩
  stated hkind := by
    obtain rfl := hf.2.2.2.2.2.2.2.1 hkind
    have hends : Rule.Ends ";" (.seq (.phrase .expression) (.word ";")) := ⟨rfl, fun _ => Rule.word_text⟩
    obtain ⟨front, last, hrow, hlast, hstop, -⟩ := h.closes hends rfl rfl hts hd
    cases h with
    | seq h₁ _ =>
      -- the statement begins where its expression does, and the semicolon is no part of that
      obtain ⟨first, rest, hheaded, hfirst⟩ := h₁.headed rfl hs.1 hts
      rw [List.dropWhile_append, hheaded] at hd
      obtain rfl : first = n := (List.cons.inj hd).1
      cases front with
      | nil => exact absurd ((List.cons.inj hrow).1 ▸ hlast) hfirst
      | cons head front =>
        obtain ⟨rfl, hns⟩ := List.cons.inj hrow
        exact ⟨first, front, last, congrArg _ hns, hfirst, hlast, hstop⟩

theorem Reads.formed (h : Reads Grammar.java rule ts xs rest) (hs : rule.Sound) (hts : Lined text lo ts hi) :
    ∀ x ∈ xs, x.All (Node.Formed text) := by
  induction h generalizing lo with
  | empty | done | ahead | absent => exact nofun
  | token _ => exact List.forall_mem_append.mpr ⟨hts.2.1.formed, List.forall_mem_singleton.mpr (formed_leaf hs.2)⟩
  | closeAngle hc =>
    obtain ⟨t, more, span, rfl, rfl⟩ := closeAngle?_eq hc
    exact List.forall_mem_append.mpr ⟨hts.2.1.formed, List.forall_mem_singleton.mpr (formed_leaf (by decide))⟩
  | seq h₁ h₂ ih₁ ih₂ =>
    obtain ⟨_, _, hmid⟩ := h₁.laid hts
    exact List.forall_mem_append.mpr ⟨ih₁ hs.1 hts, ih₂ hs.2 hmid⟩
  | more h₁ h₂ ih₁ ih₂ =>
    obtain ⟨_, _, hmid⟩ := h₁.laid hts
    exact List.forall_mem_append.mpr ⟨ih₁ hs hts, ih₂ hs hmid⟩
  | left _ ih => exact ih hs.1 hts
  | right _ ih => exact ih hs.2 hts
  | operand _ ih => exact ih hs.1 hts
  | choose _ ih => exact ih (hs _) hts
  | phrase _ ih => exact ih (java_sound _) hts
  | node inner hc ih =>
    refine forall_of_close? hc (fun x hx _ => ih hs.1 hts x hx) fun n ns hd => ?_
    refine .mk (formed_close inner hs.1 hs.2 hts hd) fun m hm => ih hs.1 hts m ?_
    rw [Node.children_mk, ← hd] at hm
    exact (List.dropWhile_sublist _).subset hm
  | role _ ih =>
    intro x hx
    obtain ⟨y, hy, rfl⟩ := List.mem_map.mp hx
    unfold Node.withRoleIfCode
    split
    · exact ih hs.2 hts y hy
    · refine formed_of_eq ?_ ?_ ?_ (ih hs.2 hts y hy) <;> cases y <;> rfl
  | @suffix operand suffix ts mid rest xs ys zs h₁ h₂ ha ih₁ ih₂ =>
    obtain ⟨_, _, hmid⟩ := h₁.laid hts
    obtain ⟨left, kind, r, span, children, hdx, hdy, left', hk, hsp, hch, rfl⟩ := adopt?_eq ha
    have hleft : left ∈ xs := (List.dropWhile_sublist Node.isComment).subset (by simp [hdx])
    have hnode : Node.mk kind r span children ∈ ys.dropWhile Node.isComment := by simp [hdy]
    have hy := (List.dropWhile_sublist Node.isComment).subset hnode
    have hcode := isComment_of_dropWhile hdy
    have hshape := (ih₂ hs.2.1 hmid _ hy).self
    obtain ⟨⟨hbare, hbody, hheader, hmethod, hparenthesized, hstatement⟩, hplain⟩ :=
      h₂.grows hs.2.2 hs.2.1 hmid _ hy hcode
    have hbetween := h₂.role_ne_object hs.2.1 hmid
    intro x hx
    rcases List.mem_append.mp hx with hx | hx
    · exact ih₁ hs hts x ((List.takeWhile_sublist _).subset hx)
    rw [List.mem_singleton.mp hx]
    -- the operand goes in front of the children that the node had, and it alone is a qualifier
    refine .mk ⟨?_, ?_, ?_, ?_, ?_, ?_, fun h => absurd h hmethod, ?_, ?_, ?_, fun h => absurd h hstatement⟩ ?_
    · intro hcall
      obtain ⟨m, hm, hr⟩ := hshape.named hcall
      exact ⟨m, List.mem_append_right _ hm, hr⟩
    · intro hcall
      obtain ⟨m, hm, hr⟩ := hshape.applied hcall
      exact ⟨m, List.mem_append_right _ hm, hr⟩
    · intro m hm
      rcases List.mem_append.mp hm with hm | hm
      · exact hbetween m ((List.takeWhile_sublist _).subset hm)
      · exact hplain m hm
    · exact fun h => absurd (hbare.symm.trans h) Bool.false_ne_true
    · exact fun h => absurd (hbody.symm.trans h) Bool.false_ne_true
    · exact fun h => absurd (hheader.symm.trans h) Bool.false_ne_true
    · intro hcall
      obtain ⟨first, rest, hfirst, hrole⟩ := adopt?_object ha _ (List.mem_append_right _ (.head [])) hcall
      exact ⟨first, rest, hfirst, .inl hrole⟩
    · intro hcall m hm hr
      obtain ⟨first, rest, hfirst, hrole⟩ := adopt?_object ha _ (List.mem_append_right _ (.head [])) hcall
      obtain ⟨rfl, -⟩ := List.cons.inj hfirst
      rcases List.mem_append.mp hm with hm | hm
      · rcases List.mem_cons.mp hm with rfl | hm
        · cases hrole.symm.trans hr
        · have hcomment : m.isComment = true := List.all_eq_true.mp List.all_takeWhile m hm
          rw [h₂.role_of_comment hmid m ((List.takeWhile_sublist _).subset hm) hcomment] at hr
          cases hr
      · exact hshape.argued hcall m hm hr
    · exact fun h => absurd (hparenthesized.symm.trans h) Bool.false_ne_true
    · intro m hm
      rcases List.mem_cons.mp hm with rfl | hm
      · exact formed_of_eq hk hsp hch (ih₁ hs hts left hleft)
      rcases List.mem_append.mp hm with hm | hm
      · exact ih₂ hs.2.1 hmid m ((List.takeWhile_sublist _).subset hm)
      · exact (ih₂ hs.2.1 hmid _ hy).child hm

theorem parse?_formed {tree : Node} (h : parse? text = some tree) : tree.All (Node.Formed text) := by
  obtain ⟨tokens, trailing, nodes, ht, hr, rfl⟩ := parse?_reads h
  obtain ⟨mid, hlined, -, hremarks⟩ := read_lined ht
  refine .mk ⟨nofun, nofun, fun m hm => ?_, nofun, nofun, nofun, nofun, nofun, nofun, nofun, nofun⟩ fun m hm => ?_
  · rcases List.mem_append.mp (List.mem_of_mem_tail hm) with hm | hm
    · exact hr.role_ne_object topLevel_sound hlined m hm
    · rw [hremarks.role m hm]
      exact nofun
  rcases List.mem_append.mp hm with hm | hm
  · exact hr.formed topLevel_sound hlined m hm
  · exact hremarks.formed m hm

end MockDialect.Java
