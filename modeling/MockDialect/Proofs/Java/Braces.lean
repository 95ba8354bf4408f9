import Mathlib.Data.List.TakeWhile
import MockDialect.Proofs.Java.Extent

namespace MockDialect.Java

open Text

/-- A lexeme that begins with a brace is the brace, and no other symbol has one in it. -/
structure Lexeme.Braces (l : Lexeme) (cs : List Char) : Prop where
  alone : cs.head? = some '\x7b' → l = .symbol ∧ cs = ['\x7b']
  behind : l = .symbol → '\x7b' ∉ cs.tail

def Token.Braces (t : Token) : Prop := t.lexeme.Braces t.text.toList

namespace Lexeme

variable {cs taken rest : List Char}

theorem braces_of_head {l : Lexeme} {c : Char} (hl : l ≠ .symbol) (hc : c ≠ '\x7b') : l.Braces (c :: cs) :=
  ⟨fun h => absurd (Option.some.inj h) hc, fun h => absurd h hl⟩

theorem braces_of_tagged {l m : Lexeme} {c : Char} {lead : List Char} {found : Option (List Char × List Char)}
    (h : tagged l (c :: lead) found = some (m, taken, rest)) (hl : l ≠ .symbol) (hc : c ≠ '\x7b') :
    m.Braces taken := by
  cases found with
  | none => cases h
  | some p =>
    simp only [tagged, Option.some.injEq, Prod.mk.injEq] at h
    obtain ⟨rfl, rfl, -⟩ := h
    exact braces_of_head hl hc

theorem braces_of_symbol? (h : symbol? cs = some (taken, rest)) : Lexeme.symbol.Braces taken := by
  obtain ⟨s, hs, he⟩ := Option.map_eq_some_iff.mp h
  obtain ⟨rfl, -⟩ := Prod.mk.injEq .. ▸ he
  obtain ⟨halone, hbehind⟩ := (by decide : ∀ s ∈ symbols, (s.toList.head? = some '\x7b' → s.toList = ['\x7b']) ∧
    '\x7b' ∉ s.toList.tail) s (List.mem_of_find?_eq_some hs)
  exact ⟨fun hhead => ⟨rfl, halone hhead⟩, fun _ => hbehind⟩

theorem braces_of_next? {l : Lexeme} (h : next? cs = some (l, taken, rest)) : l.Braces taken := by
  unfold next? at h
  split at h
  · cases h
  · simp only [Option.some.injEq, Prod.mk.injEq] at h
    obtain ⟨rfl, rfl, -⟩ := h
    exact braces_of_head nofun (by decide)
  · exact braces_of_tagged h nofun (by decide)
  · exact braces_of_tagged h nofun (by decide)
  · exact braces_of_tagged h nofun (by decide)
  · cases h
  · exact braces_of_tagged h nofun (by decide)
  · next c cs _ _ _ _ _ _ =>
    -- a brace is no separator, and neither a name nor a number begins with it
    split at h
    · next hseparator =>
      simp only [Option.some.injEq, Prod.mk.injEq] at h
      obtain ⟨rfl, rfl, -⟩ := h
      exact braces_of_head nofun fun hc => by rw [hc] at hseparator; cases hseparator
    split at h
    · next hname =>
      simp only [Option.some.injEq, Prod.mk.injEq] at h
      obtain ⟨rfl, rfl, -⟩ := h
      exact braces_of_head nofun fun hc => by rw [hc] at hname; exact absurd hname (by decide)
    split at h
    · next hdigit =>
      exact braces_of_tagged h nofun fun hc => by rw [hc] at hdigit; exact absurd hdigit (by simp)
    cases hsymbol : symbol? (c :: cs) with
    | none =>
      rw [hsymbol] at h
      cases h
    | some found =>
      rw [hsymbol] at h
      simp only [tagged, Option.some.injEq, Prod.mk.injEq] at h
      obtain ⟨rfl, rfl, -⟩ := h
      exact braces_of_symbol? hsymbol

end Lexeme

theorem forall_of_assemble {P : Lexeme → List Char → Prop} {offset : Nat} {comments trailing : List Node}
    {ls : List (Lexeme × List Char)} {tokens : List Token} (hls : ∀ l ∈ ls, P l.1 l.2)
    (h : Token.assemble offset comments ls = (tokens, trailing)) :
    ∀ t ∈ tokens, P t.lexeme t.text.toList := by
  induction ls generalizing offset comments tokens with
  | nil =>
    simp only [Token.assemble, Prod.mk.injEq] at h
    obtain ⟨rfl, -⟩ := h
    exact List.forall_mem_nil _
  | cons l ls ih =>
    obtain ⟨l, cs⟩ := l
    obtain ⟨hl, hmore⟩ := List.forall_mem_cons.mp hls
    cases l with
    | blank | lineComment | blockComment => exact ih hmore h
    | word | number | character | string | symbol =>
      simp only [Token.assemble, Prod.mk.injEq] at h
      obtain ⟨rfl, rfl⟩ := h
      refine List.forall_mem_cons.mpr ⟨?_, ih hmore rfl⟩
      rwa [String.toList_ofList]

theorem read_braces {text : List Char} {tokens : List Token} {trailing : List Node}
    (h : Token.read text = some (tokens, trailing)) : ∀ t ∈ tokens, t.Braces := by
  unfold Token.read at h
  split at h
  · next c rest =>
    split at h
    · next hmark =>
      obtain ⟨ls, hcut, hassemble⟩ := Option.map_eq_some_iff.mp h
      refine forall_of_assemble (List.forall_mem_cons.mpr ⟨?_, Lexeme.forall_of_cut Lexeme.braces_of_next? hcut⟩)
        hassemble
      exact Lexeme.braces_of_head nofun (by rw [hmark]; decide)
    · obtain ⟨ls, hcut, hassemble⟩ := Option.map_eq_some_iff.mp h
      exact forall_of_assemble (Lexeme.forall_of_cut Lexeme.braces_of_next? hcut) hassemble
  · simp only [Option.some.injEq, Prod.mk.injEq] at h
    obtain ⟨rfl, -⟩ := h
    exact nofun

variable {text : List Char} {lo hi : Nat} {rule : Rule} {ts rest : List Token} {xs : List Node}

theorem closeAngle?_braces (h : Token.closeAngle? ts = some (xs, rest)) (hts : ∀ t ∈ ts, t.Braces) :
    ∀ t ∈ rest, t.Braces := by
  cases ts with
  | nil => cases h
  | cons t ts =>
    obtain ⟨ht, hts⟩ := List.forall_mem_cons.mp hts
    simp only [Token.closeAngle?] at h
    split at h
    · simp only [Option.some.injEq, Prod.mk.injEq] at h
      obtain ⟨-, rfl⟩ := h
      exact hts
    · next cs _ hsymbol htext =>
      simp only [Option.some.injEq, Prod.mk.injEq] at h
      obtain ⟨-, rfl⟩ := h
      have hbehind : '\x7b' ∉ cs := by simpa [htext] using ht.behind hsymbol
      refine List.forall_mem_cons.mpr ⟨⟨fun hhead => ?_, fun _ hmem => ?_⟩, hts⟩
      · rw [String.toList_ofList] at hhead
        exact absurd (List.mem_of_mem_head? hhead) hbehind
      · rw [String.toList_ofList] at hmem
        exact hbehind (List.mem_of_mem_tail hmem)
    · cases h

theorem Reads.braces {grammar : Phrase → Rule} (h : Reads grammar rule ts xs rest) (hts : ∀ t ∈ ts, t.Braces) :
    ∀ t ∈ rest, t.Braces := by
  induction h with
  | empty | done | ahead | absent => exact hts
  | token _ => exact (List.forall_mem_cons.mp hts).2
  | closeAngle hc => exact closeAngle?_braces hc hts
  | seq _ _ ih₁ ih₂ | more _ _ ih₁ ih₂ | suffix _ _ _ ih₁ ih₂ => exact ih₂ (ih₁ hts)
  | left _ ih | right _ ih | operand _ ih | choose _ ih | phrase _ ih | node _ _ ih | role _ ih => exact ih hts

def Token.IsBrace (t : Token) : Prop := t.lexeme = .symbol ∧ t.text = "\x7b"

theorem Token.IsBrace.headText {t : Token} (h : t.IsBrace) (ts : List Token) : Token.headText (t :: ts) = "\x7b" := by
  rw [Token.headText, h.1, h.2]
  rfl

namespace Rule

/-- What the rule reads does not begin with a brace. -/
@[simp] def Refuses : Rule → Prop
  | token accept _ => ∀ t, accept t = true → ¬ t.IsBrace
  | seq (ahead _) a | seq (absent _) a | seq a _ | node _ a | role _ a | grow a _ => a.Refuses
  | alt a b => a.Refuses ∧ b.Refuses
  | choose select => (select "\x7b").Refuses
  | phrase p => p.isExpression = true
  | _ => False

theorem refuses_text {text : String} (kind : Kind) (h : text ≠ "\x7b") : (token (·.isText text) kind).Refuses :=
  fun _ haccept hbrace => h ((word_text haccept).symm.trans hbrace.2)

theorem refuses_name (kind : Kind) : (token Token.isName kind).Refuses := by
  intro t haccept hbrace
  rw [Token.isName, hbrace.1] at haccept
  cases haccept

theorem refuses_oneOf {texts : List String} (kind : Kind) (h : "\x7b" ∉ texts) :
    (token (fun t => texts.any t.isText) kind).Refuses := by
  intro t haccept hbrace
  obtain ⟨text, hmem, htext⟩ := List.any_eq_true.mp haccept
  rw [← word_text htext, hbrace.2] at hmem
  exact h hmem

end Rule

section

open Grammar Rule

theorem plainType_refuses : plainType.Refuses :=
  ⟨refuses_oneOf .primitiveType (by decide), refuses_text .voidType (by decide), refuses_name .typeIdentifier⟩

theorem operand_refuses : operand.Refuses :=
  ⟨refuses_name .identifier, refuses_name .identifier, plainType_refuses, plainType_refuses, refuses_name .identifier⟩

theorem java_refuses {p : Phrase} (h : p.isExpression = true) : (java p).Refuses := by
  cases p with
  | expression => exact ⟨rfl, rfl⟩
  | binary level =>
    change Rule.Refuses (if level < 9 then phrase (.binary (level + 1)) else phrase .unary)
    split <;> rfl
  | unary => exact rfl
  | primary => exact operand_refuses
  | lambda => exact refuses_name .identifier
  | switchExpression => exact refuses_text .token (by decide)
  | _ => cases h

end

theorem Reads.refuses {t : Token} (h : Reads Grammar.java rule (t :: ts) xs rest) (hr : rule.Refuses) :
    ¬ t.IsBrace := by
  intro hbrace
  generalize htokens : t :: ts = tokens at h
  induction h with
  | token haccept =>
    obtain ⟨rfl, -⟩ := List.cons.inj htokens
    exact hr t haccept hbrace
  | @seq a b _ _ _ _ _ h₁ _ ih₁ ih₂ =>
    by_cases hempty : ∃ c, a = .ahead c ∨ a = .absent c
    · obtain ⟨c, rfl | rfl⟩ := hempty
      · cases h₁
        exact ih₂ hr htokens
      · cases h₁
        exact ih₂ hr htokens
    · exact ih₁ (by cases a <;> simp_all) htokens
  | left _ ih => exact ih hr.1 htokens
  | right _ ih => exact ih hr.2 htokens
  | node _ _ ih | role _ ih | operand _ ih | suffix _ _ _ ih _ => exact ih hr htokens
  | choose _ ih =>
    refine ih ?_ htokens
    rw [← htokens, hbrace.headText]
    exact hr
  | phrase _ ih => exact ih (java_refuses hr) htokens
  | _ => cases hr

theorem Reads.eq_of_comments (h : Reads Grammar.java rule ts xs rest) (hs : rule.Sound)
    (hxs : ∀ x ∈ xs, x.isComment = true) : xs = [] ∧ rest = ts := by
  -- what is added to comments is no comment
  have hlast : ∀ {ns : List Node} {n : Node}, n.isComment = false → ¬ ∀ x ∈ ns ++ [n], x.isComment = true :=
    fun hn hall => absurd (hn.symm.trans (hall _ (by simp))) Bool.false_ne_true
  induction h with
  | empty | done | ahead | absent => exact ⟨rfl, rfl⟩
  | token _ => exact absurd hxs (hlast hs.1)
  | closeAngle hc =>
    obtain ⟨t, more, span, rfl, rfl⟩ := closeAngle?_eq hc
    exact absurd hxs (hlast rfl)
  | seq _ _ ih₁ ih₂ =>
    obtain ⟨hx, hy⟩ := List.forall_mem_append.mp hxs
    obtain ⟨rfl, rfl⟩ := ih₁ hs.1 hx
    obtain ⟨rfl, rfl⟩ := ih₂ hs.2 hy
    exact ⟨rfl, rfl⟩
  | more _ _ ih₁ ih₂ =>
    obtain ⟨hx, hy⟩ := List.forall_mem_append.mp hxs
    obtain ⟨rfl, rfl⟩ := ih₁ hs hx
    obtain ⟨rfl, rfl⟩ := ih₂ hs hy
    exact ⟨rfl, rfl⟩
  | left _ ih => exact ih hs.1 hxs
  | right _ ih => exact ih hs.2 hxs
  | operand _ ih => exact ih hs.1 hxs
  | choose _ ih => exact ih (hs _) hxs
  | phrase _ ih => exact ih (java_sound _) hxs
  | node _ hc _ =>
    obtain ⟨n, ns, -, rfl⟩ := close?_eq hc
    exact absurd hxs (hlast (Kind.isComment_of_isBare hs.2.1))
  | role _ ih =>
    obtain ⟨rfl, rfl⟩ := ih hs.2 fun x hx => by
      rw [← isComment_withRoleIfCode]
      exact hxs _ (List.mem_map_of_mem hx)
    exact ⟨rfl, rfl⟩
  | suffix _ _ ha _ _ =>
    obtain ⟨left, kind, r, span, children, -, hdy, left', -, -, -, rfl⟩ := adopt?_eq ha
    have hcode := isComment_of_dropWhile hdy
    exact absurd hxs (hlast hcode)

theorem dropWhile_singleton {front : List Node} {m n : Node} {ns : List Node}
    (hfront : ∀ x ∈ front, x.isComment = true) (h : (front ++ [m]).dropWhile Node.isComment = n :: ns) : n = m := by
  rw [List.dropWhile_append_of_pos hfront] at h
  exact (List.mem_singleton.mp ((List.dropWhile_sublist _).subset (h ▸ List.mem_cons_self)))

theorem Reads.first_of_append {n : Node} {ns ys : List Node} (h : Reads Grammar.java rule ts xs rest)
    (hs : rule.Sound) (hd : (xs ++ ys).dropWhile Node.isComment = n :: ns) :
    (∃ ns', xs.dropWhile Node.isComment = n :: ns') ∨ rest = ts ∧ ys.dropWhile Node.isComment = n :: ns := by
  cases hx : xs.dropWhile Node.isComment with
  | cons m ms =>
    rw [List.dropWhile_append, hx] at hd
    exact .inl ⟨ms, by rw [(List.cons.inj hd).1]⟩
  | nil =>
    obtain ⟨rfl, rfl⟩ := h.eq_of_comments hs (List.dropWhile_eq_nil_iff.mp hx)
    exact .inr ⟨rfl, hd⟩

theorem Reads.first {n : Node} {ns : List Node} (h : Reads Grammar.java rule ts xs rest) (hs : rule.Sound)
    (hts : Lined text lo ts hi) (hd : xs.dropWhile Node.isComment = n :: ns) :
    ∃ t more, ts = t :: more ∧ n.span.start = t.span.start := by
  induction h generalizing lo n ns with
  | empty | done | ahead | absent => cases hd
  | @token accept kind t rest _ =>
    rw [dropWhile_singleton hts.2.1.isComment hd]
    exact ⟨t, rest, rfl, rfl⟩
  | @closeAngle ts rest xs hc =>
    cases ts with
    | nil => cases hc
    | cons t ts =>
      refine ⟨t, ts, rfl, ?_⟩
      simp only [Token.closeAngle?] at hc
      split at hc
      · simp only [Option.some.injEq, Prod.mk.injEq] at hc
        obtain ⟨rfl, -⟩ := hc
        rw [dropWhile_singleton hts.2.1.isComment hd]
        rfl
      · simp only [Option.some.injEq, Prod.mk.injEq] at hc
        obtain ⟨rfl, -⟩ := hc
        rw [dropWhile_singleton hts.2.1.isComment hd]
        rfl
      · cases hc
  | seq h₁ _ ih₁ ih₂ =>
    rcases h₁.first_of_append hs.1 hd with ⟨_, hx⟩ | ⟨rfl, hy⟩
    · exact ih₁ hs.1 hts hx
    · exact ih₂ hs.2 hts hy
  | more h₁ _ ih₁ ih₂ =>
    rcases h₁.first_of_append hs hd with ⟨_, hx⟩ | ⟨rfl, hy⟩
    · exact ih₁ hs hts hx
    · exact ih₂ hs hts hy
  | left _ ih => exact ih hs.1 hts hd
  | right _ ih => exact ih hs.2 hts hd
  | operand _ ih => exact ih hs.1 hts hd
  | choose _ ih => exact ih (hs _) hts hd
  | phrase _ ih => exact ih (java_sound _) hts hd
  | node _ hc ih =>
    obtain ⟨m, ms, hm, rfl⟩ := close?_eq hc
    rw [dropWhile_singleton (List.all_eq_true.mp List.all_takeWhile) hd]
    obtain ⟨t, more, rfl, hstart⟩ := ih hs.1 hts hm
    exact ⟨t, more, rfl, hstart⟩
  | @role r content ts rest xs _ ih =>
    have hsame : Node.isComment ∘ Node.withRoleIfCode r = Node.isComment := funext (isComment_withRoleIfCode r)
    rw [List.dropWhile_map, hsame] at hd
    obtain ⟨m, ms, hm, rfl, -⟩ := List.map_eq_cons_iff.mp hd
    obtain ⟨t, more, rfl, hstart⟩ := ih hs.2 hts hm
    refine ⟨t, more, rfl, ?_⟩
    rw [← hstart, Node.withRoleIfCode]
    split
    · rfl
    · rw [span_withRole]
  | suffix _ _ ha ih₁ _ =>
    obtain ⟨left, kind, r, span, children, hdx, -, left', -, hspan, -, rfl⟩ := adopt?_eq ha
    rw [dropWhile_singleton (List.all_eq_true.mp List.all_takeWhile) hd]
    obtain ⟨t, more, rfl, hstart⟩ := ih₁ hs hts hdx
    exact ⟨t, more, rfl, (congrArg Span.start hspan).trans hstart⟩

theorem Token.At.head? {t : Token} {c : Char} (h : t.At text) (hne : t.text.toList ≠ [])
    (hc : CharAt text t.span.start c) : t.text.toList.head? = some c := by
  obtain ⟨before, after, htext, hspan⟩ := h
  obtain ⟨front, back, hchar, hfront⟩ := hc
  rw [htext, List.append_assoc] at hchar
  rw [hspan] at hfront
  obtain ⟨between, rfl, hrest⟩ := exists_append_of_width_le hchar (Nat.le_of_eq hfront.symm)
  obtain rfl : between = [] := by
    refine Decidable.byContradiction fun hbetween => ?_
    have hwide := width_pos hbetween
    rw [width_append] at hfront
    dsimp only at hfront
    omega
  obtain ⟨d, more, hmore⟩ := List.exists_cons_of_ne_nil hne
  rw [hmore] at hrest ⊢
  exact congrArg some (List.cons.inj hrest).1

/-- The first argument in a list does not begin with a brace. -/
def Node.Unbraced (text : List Char) (n : Node) : Prop :=
  n.kind = .argumentList → ∀ m ∈ n.codeChildren.head?, ¬ CharAt text m.span.start '\x7b'

/-- Neither punctuation nor a comment. -/
def Node.isCode (n : Node) : Bool := !n.isComment && n.kind != .token

theorem Node.head?_codeChildren (n : Node) : n.codeChildren.head? = n.children.find? isCode := by
  rw [codeChildren, namedChildren, List.filter_filter, List.head?_filter]
  rfl

theorem unbraced_of_eq {n m : Node} (hkind : m.kind = n.kind) (hchildren : m.children = n.children)
    (h : n.All (Node.Unbraced text)) : m.All (Node.Unbraced text) := by
  refine .mk (fun hlist => ?_) fun k hk => h.child (hchildren ▸ hk)
  rw [Node.head?_codeChildren, hchildren, ← Node.head?_codeChildren]
  exact h.self (hkind ▸ hlist)

theorem Reads.not_brace {e : Node} {es : List Node} (h : Reads Grammar.java (.phrase .expression) ts xs rest)
    (hts : Lined text lo ts hi) (hsolid : ∀ t ∈ ts, t.Solid) (hbraces : ∀ t ∈ ts, t.Braces)
    (hd : xs.dropWhile Node.isComment = e :: es) : ¬ CharAt text e.span.start '\x7b' := by
  intro hchar
  obtain ⟨t, more, rfl, hstart⟩ := h.first trivial hts hd
  obtain ⟨-, -, hat, -⟩ := hts
  have hhead := hat.head? (hsolid t (.head more)).text (hstart ▸ hchar)
  obtain ⟨hsymbol, htext⟩ := (hbraces t (.head more)).alone hhead
  exact h.refuses rfl ⟨hsymbol, String.toList_inj.mp htext⟩

theorem find?_comments {front back : List Node} (h : ∀ x ∈ front, x.isComment = true) :
    (front ++ back).find? Node.isCode = back.find? Node.isCode := by
  rw [List.find?_append, List.find?_eq_none.mpr fun x hx => by simp [Node.isCode, h x hx], Option.none_or]

theorem unbraced_close {n : Node} {ns : List Node}
    (h : Reads Grammar.java (.seq (.word "(") (.seq (.commaSeparated (.phrase .expression)) (.word ")"))) ts xs rest)
    (hts : Lined text lo ts hi) (hsolid : ∀ t ∈ ts, t.Solid) (hbraces : ∀ t ∈ ts, t.Braces)
    (hd : xs.dropWhile Node.isComment = n :: ns) :
    (Node.mk .argumentList none (Node.spanOf n ns) (n :: ns)).Unbraced text := by
  intro _ m hm
  rw [Node.head?_codeChildren, Node.children_mk] at hm
  cases h with
  | seq h₁ h₂ =>
    cases h₁ with
    | @token accept kind t rest _ =>
      obtain ⟨-, hremarks, -, hlined⟩ := hts
      have hparen : (Node.leaf .token t.span).isComment = false := rfl
      rw [List.append_assoc, List.singleton_append, dropWhile_comments hremarks.isComment hparen] at hd
      rw [← hd, List.find?_cons_of_neg (Bool.eq_false_iff.mp rfl)] at hm
      cases h₂ with
      | seq h₃ h₄ =>
        cases h₃ with
        | left h₃ =>
          cases h₃ with
          | @seq _ _ _ _ _ es _ he _ =>
            -- the first expression begins with a node, and that is the argument
            obtain ⟨e, es', hde, htoken⟩ := he.headed rfl trivial hlined
            have hes : es = es.takeWhile Node.isComment ++ e :: es' := by
              rw [← hde, List.takeWhile_append_dropWhile]
            have hcode : e.isCode = true := by simpa [Node.isCode, isComment_of_dropWhile hde] using htoken
            rw [hes, List.append_assoc, List.append_assoc, find?_comments (List.all_eq_true.mp List.all_takeWhile),
              List.cons_append, List.find?_cons_of_pos hcode] at hm
            obtain rfl := Option.some.inj hm
            exact he.not_brace hlined (List.forall_mem_cons.mp hsolid).2 (List.forall_mem_cons.mp hbraces).2 hde
        | right h₃ =>
          cases h₃
          cases h₄ with
          | token _ =>
            rw [List.nil_append, find?_comments hlined.2.1.isComment,
              List.find?_cons_of_neg (Bool.eq_false_iff.mp rfl)] at hm
            cases hm

theorem Reads.unbraced (h : Reads Grammar.java rule ts xs rest) (hs : rule.Sound) (hts : Lined text lo ts hi)
    (hsolid : ∀ t ∈ ts, t.Solid) (hbraces : ∀ t ∈ ts, t.Braces) : ∀ x ∈ xs, x.All (Node.Unbraced text) := by
  have hleaf : ∀ {comments : List Node} {kind : Kind} {span : Span}, Remarks comments →
      ∀ x ∈ comments ++ [.leaf kind span], x.All (Node.Unbraced text) := by
    intro comments kind span hremarks
    refine List.forall_mem_append.mpr ⟨fun x hx => ?_, List.forall_mem_singleton.mpr (.leaf nofun)⟩
    obtain ⟨kind, span, rfl, -⟩ := hremarks x hx
    exact .leaf nofun
  induction h generalizing lo with
  | empty | done | ahead | absent => exact nofun
  | token _ => exact hleaf hts.2.1
  | closeAngle hc =>
    obtain ⟨t, more, span, rfl, rfl⟩ := closeAngle?_eq hc
    exact hleaf hts.2.1
  | seq h₁ _ ih₁ ih₂ =>
    obtain ⟨_, _, hmid⟩ := h₁.laid hts
    exact List.forall_mem_append.mpr ⟨ih₁ hs.1 hts hsolid hbraces,
      ih₂ hs.2 hmid (h₁.solid hts hsolid).2 (h₁.braces hbraces)⟩
  | more h₁ _ ih₁ ih₂ =>
    obtain ⟨_, _, hmid⟩ := h₁.laid hts
    exact List.forall_mem_append.mpr ⟨ih₁ hs hts hsolid hbraces,
      ih₂ hs hmid (h₁.solid hts hsolid).2 (h₁.braces hbraces)⟩
  | left _ ih => exact ih hs.1 hts hsolid hbraces
  | right _ ih => exact ih hs.2 hts hsolid hbraces
  | operand _ ih => exact ih hs.1 hts hsolid hbraces
  | choose _ ih => exact ih (hs _) hts hsolid hbraces
  | phrase _ ih => exact ih (java_sound _) hts hsolid hbraces
  | @node kind content ts rest xs ys inner hc ih =>
    refine forall_of_close? hc (fun x hx _ => ih hs.1 hts hsolid hbraces x hx) fun n ns hd => ?_
    refine .mk (fun hkind => ?_) fun m hm => ih hs.1 hts hsolid hbraces m ?_
    · obtain rfl : kind = .argumentList := hkind
      obtain ⟨-, -, -, -, -, -, -, -, -, hcontent⟩ := hs
      obtain rfl := hcontent rfl
      exact unbraced_close inner hts hsolid hbraces hd rfl
    · rw [Node.children_mk, ← hd] at hm
      exact (List.dropWhile_sublist _).subset hm
  | role _ ih =>
    intro x hx
    obtain ⟨y, hy, rfl⟩ := List.mem_map.mp hx
    unfold Node.withRoleIfCode
    split
    · exact ih hs.2 hts hsolid hbraces y hy
    · refine unbraced_of_eq ?_ ?_ (ih hs.2 hts hsolid hbraces y hy) <;> cases y <;> rfl
  | @suffix operand suffix ts mid rest xs ys zs h₁ h₂ ha ih₁ ih₂ =>
    obtain ⟨_, _, hmid⟩ := h₁.laid hts
    have hx := ih₁ hs hts hsolid hbraces
    have hy := ih₂ hs.2.1 hmid (h₁.solid hts hsolid).2 (h₁.braces hbraces)
    obtain ⟨left, kind, r, span, children, hdx, hdy, left', hkind, hspan, hchildren, rfl⟩ := adopt?_eq ha
    have hleft : left ∈ xs := (List.dropWhile_sublist Node.isComment).subset (by simp [hdx])
    have hgrown : Node.mk kind r span children ∈ ys := (List.dropWhile_sublist Node.isComment).subset (by simp [hdy])
    have hcode := isComment_of_dropWhile hdy
    obtain ⟨⟨-, -, -, -, hparenthesized, -⟩, -⟩ := h₂.grows hs.2.2 hs.2.1 hmid _ hgrown hcode
    intro z hz
    rcases List.mem_append.mp hz with hz | hz
    · exact hx z (List.takeWhile_subset _ hz)
    rw [List.mem_singleton.mp hz]
    refine .mk (fun hlist => ?_) (List.forall_mem_cons.mpr ⟨?_, ?_⟩)
    · rw [show kind = .argumentList from hlist] at hparenthesized
      cases hparenthesized
    · exact unbraced_of_eq hkind hchildren (hx left hleft)
    · exact List.forall_mem_append.mpr
        ⟨fun m hm => hy m (List.takeWhile_subset _ hm), fun m hm => (hy _ hgrown).child hm⟩

theorem parse?_unbraced {tree : Node} (h : parse? text = some tree) : tree.All (Node.Unbraced text) := by
  obtain ⟨tokens, trailing, nodes, ht, hr, rfl⟩ := parse?_reads h
  obtain ⟨mid, hlined, -, hremarks⟩ := read_lined ht
  refine .mk nofun (List.forall_mem_append.mpr ⟨?_, fun m hm => ?_⟩)
  · exact hr.unbraced topLevel_sound hlined (read_solid ht).1 (read_braces ht)
  · obtain ⟨kind, span, rfl, -⟩ := hremarks m hm
    exact .leaf nofun

end MockDialect.Java

namespace MockDialect.Source

open Java

theorem File.read_unbraced (source : String) :
    (File.read source).tree.All (Node.Unbraced (File.read source).text) := by
  obtain ⟨tree, broken, htree, he⟩ := File.read_eq source
  rw [he]
  rcases htree with htree | rfl
  · exact parse?_unbraced htree
  · exact .leaf nofun

end MockDialect.Source
