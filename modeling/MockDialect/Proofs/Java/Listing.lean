import MockDialect.Proofs.Java.Origins
import MockDialect.Proofs.Java.Spacing

namespace MockDialect.Java

open Text

/-- A token that is one character. -/
structure Sign (text : List Char) (c : Char) (n : Node) : Prop where
  kind : n.kind = .token
  char : CharAt text n.span.start c
  stop : n.span.stop = n.span.start + 1

/-- What is left of a list of arguments from some child on, and whether an argument stands right before it. -/
inductive Listing (text : List Char) : Bool → List Node → Prop where
  | close {behind : Bool} {n : Node} (sign : Sign text ')' n) : Listing text behind [n]
  | remark {behind : Bool} {n : Node} {ns : List Node} (comment : n.isComment = true) (next : Listing text behind ns) :
      Listing text behind (n :: ns)
  | item {n : Node} {ns : List Node} (code : n.isComment = false) (kind : n.kind ≠ .token)
      (next : Listing text true ns) : Listing text false (n :: ns)
  | comma {n : Node} {ns : List Node} (sign : Sign text ',' n) (next : Listing text false ns) :
      Listing text true (n :: ns)

variable {text : List Char} {ts rest : List Token} {xs ns : List Node} {n : Node} {lo hi : Nat} {behind : Bool}

theorem Token.At.sign {t : Token} {c : Char} (h : t.At text) (ht : t.text.toList = [c]) (hc : c.utf8Size = 1) :
    Sign text c (.leaf .token t.span) :=
  ⟨rfl, (h.charAt ht hc).1, (h.charAt ht hc).2⟩

theorem Sign.spelled {c : Char} (h : Sign text c n) (hc : Lexeme.isSeparator c = false) (hsize : c.utf8Size = 1) :
    Java.spelled text n.span = [c] := by
  obtain ⟨-, ⟨before, after, rfl, hstart⟩, hstop⟩ := h
  have hspan : n.span = ⟨width before, width before + width [c]⟩ := by
    rw [hstart, width_cons, hsize]
    exact congrArg (Span.mk n.span.start) hstop
  have hmiddle := spelled_middle before [c] after
  rw [List.filter_cons_of_pos (by simp [hc])] at hmiddle
  simpa [hspan] using hmiddle

theorem Listing.ends (h : Listing text behind ns) : ∃ between last, ns = between ++ [last] ∧ Sign text ')' last := by
  induction h with
  | close sign => exact ⟨[], _, rfl, sign⟩
  | @remark _ n _ _ _ ih | @item n _ _ _ _ ih | @comma n _ _ _ ih =>
    obtain ⟨between, last, rfl, hlast⟩ := ih
    exact ⟨n :: between, last, rfl, hlast⟩

theorem Listing.next {c : Char} (h : Listing text true ns) (hspread : Spread text lo ns hi) (hc : CharAt text lo c)
    (hink : Lexeme.isSeparator c = false) (hslash : c ≠ '/') :
    ∃ n rest, ns = n :: rest ∧ n.kind = .token ∧ n.span.stop = lo + 1 ∧
      (c = ')' ∧ rest = [] ∨ c = ',' ∧ Listing text false rest) := by
  cases h with
  | close sign =>
    obtain rfl := hspread.1.eq_of_charAt hc hink
    exact ⟨_, _, rfl, sign.kind, sign.stop, .inl ⟨hc.unique sign.char, rfl⟩⟩
  | remark comment _ =>
    obtain rfl := hspread.1.eq_of_charAt hc hink
    obtain ⟨d, hd, -, hcomment⟩ := hspread.2.1.begins
    exact absurd ((hc.unique hd).trans (hcomment comment)) hslash
  | comma sign next =>
    obtain rfl := hspread.1.eq_of_charAt hc hink
    exact ⟨_, _, rfl, sign.kind, sign.stop, .inr ⟨hc.unique sign.char, next⟩⟩

theorem Listing.remarks {front : List Node} (hfront : ∀ x ∈ front, x.isComment = true)
    (h : Listing text behind ns) : Listing text behind (front ++ ns) := by
  induction front with
  | nil => exact h
  | cons x front ih =>
    obtain ⟨hx, hfront⟩ := List.forall_mem_cons.mp hfront
    exact .remark hx (ih hfront)

theorem Reads.listing_item (h : Reads Grammar.java (.phrase .expression) ts xs rest) (hts : Lined text lo ts hi)
    (hns : Listing text true ns) : Listing text false (xs ++ ns) := by
  obtain ⟨front, n, rfl, hfront, hcode⟩ := h.single rfl hts
  obtain ⟨m, ms, hhead, hkind⟩ := h.headed rfl trivial hts
  rw [dropWhile_comments hfront hcode] at hhead
  obtain ⟨rfl, -⟩ := List.cons.inj hhead
  rw [List.append_assoc]
  exact .remarks hfront (.item hcode hkind hns)

theorem Reads.listing_items (h : Reads Grammar.java (.many (.seq (Rule.word ",") (.phrase .expression))) ts xs rest)
    (hts : Lined text lo ts hi) (hns : Listing text true ns) : Listing text true (xs ++ ns) := by
  generalize hrule : Rule.many (.seq (Rule.word ",") (.phrase .expression)) = rule at h
  induction h generalizing lo with
  | done => exact hns
  | more h₁ _ _ ih =>
    obtain rfl := Rule.many.inj hrule
    obtain ⟨_, _, hmid⟩ := h₁.laid hts
    cases h₁ with
    | seq h₁ h₂ =>
      obtain ⟨_, _, hitem⟩ := h₁.laid hts
      cases h₁ with
      | @token _ _ t _ hcomma =>
        have hsign := hts.2.2.1.sign (by rw [Rule.word_text hcomma]; rfl) (rfl : ','.utf8Size = 1)
        rw [List.append_assoc, List.append_assoc, List.append_assoc]
        exact .remarks hts.2.1.isComment (.comma hsign (h₂.listing_item hitem (ih hmid rfl)))
  | _ => cases hrule

theorem Reads.listing_separated (h : Reads Grammar.java (Rule.commaSeparated (.phrase .expression)) ts xs rest)
    (hts : Lined text lo ts hi) (hns : ∀ behind, Listing text behind ns) : Listing text false (xs ++ ns) := by
  cases h with
  | right h =>
    cases h
    exact hns false
  | left h =>
    cases h with
    | seq h₁ h₂ =>
      obtain ⟨_, _, hitems⟩ := h₁.laid hts
      rw [List.append_assoc]
      exact h₁.listing_item hts (h₂.listing_items hitems (hns true))

theorem Reads.listing (h : Reads Grammar.java
      (.seq (Rule.word "(") (.seq (Rule.commaSeparated (.phrase .expression)) (Rule.word ")"))) ts xs rest)
    (hts : Lined text lo ts hi) :
    ∃ first rows, xs.dropWhile Node.isComment = first :: rows ∧ Sign text '(' first ∧ Listing text false rows := by
  cases h with
  | seq h₁ h₂ =>
    obtain ⟨_, _, hmid⟩ := h₁.laid hts
    cases h₁ with
    | @token _ _ t _ hopen =>
      cases h₂ with
      | @seq _ _ _ _ _ items _ h₂ h₃ =>
        obtain ⟨_, _, hlast⟩ := h₂.laid hmid
        cases h₃ with
        | @token _ _ t' _ hclose =>
          have hend : Sign text ')' (.leaf .token t'.span) :=
            hlast.2.2.1.sign (by rw [Rule.word_text hclose]; rfl) rfl
          refine ⟨.leaf .token t.span, items ++ (t'.comments ++ [.leaf .token t'.span]), ?_,
            hts.2.2.1.sign (by rw [Rule.word_text hopen]; rfl) rfl,
            h₂.listing_separated hmid fun _ => .remarks hlast.2.1.isComment (.close hend)⟩
          rw [List.append_assoc, List.singleton_append, dropWhile_comments hts.2.1.isComment rfl]

theorem Node.Origin.listing (h : n.Origin text) (hformed : n.Formed text) (hkind : n.kind = .argumentList) :
    ∃ first rows, n.children = first :: rows ∧ Sign text '(' first ∧ Listing text false rows := by
  cases h with
  | leaf bare _ =>
    obtain ⟨-, first, rest, hchildren, -⟩ := hformed.parenthesized (by rw [hkind]; rfl)
    rw [bare] at hchildren
    cases hchildren
  | closed _ sound stream inner children =>
    obtain ⟨lo, hi, hlined⟩ := stream.lined
    obtain ⟨-, -, -, -, -, -, -, -, -, hcontent⟩ := sound
    obtain rfl := hcontent hkind
    rw [children]
    exact inner.listing hlined
  | @grown _ _ _ right _ _ _ _ _ _ ys _ sound stream first _ next behind _ kind _ _ =>
    obtain ⟨lo, hi, hlined⟩ := stream.lined
    obtain ⟨_, _, hmid⟩ := first.laid hlined
    have hright : right ∈ ys := (List.dropWhile_sublist Node.isComment).subset (by simp [behind])
    obtain ⟨⟨-, -, -, -, hparenthesized, -⟩, -⟩ :=
      next.grows sound.2.2 sound.2.1 hmid right hright (isComment_of_dropWhile behind)
    rw [kind, hkind] at hparenthesized
    cases hparenthesized

end MockDialect.Java

namespace MockDialect.Source

open Java

variable (source : String) {n m : Node} {above : List Node}

theorem File.read_kind_ne_program (h : Cursor.In (File.read source).tree ⟨n, m :: above⟩) : n.kind ≠ .program := by
  intro hkind
  have hholds : m.kind.holds n.kind = true := File.read_holds source h rfl
  rw [hkind] at hholds
  cases hholds

theorem File.read_inked (h : Cursor.In (File.read source).tree ⟨n, m :: above⟩) (hcode : n.isComment = false) :
    Inked (File.read source).text n.kind n.span := by
  obtain ⟨hup, hn⟩ := h.up
  cases above with
  | cons k above =>
    have hpacked := (File.read_packed source hup (File.read_kind_ne_program source hup)).self
    exact (hpacked (List.ne_nil_of_mem hn)).of_mem hn
  | nil =>
    obtain ⟨tree, broken, htree, he⟩ := File.read_eq source
    rw [(File.read_sound source).text, File.source_read]
    rw [he] at hup
    cases hup
    rcases htree with htree | rfl
    · exact parse?_inked htree n hn hcode
    · cases hn

end MockDialect.Source
