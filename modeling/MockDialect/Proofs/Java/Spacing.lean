import MockDialect.Proofs.Java.Streams

namespace MockDialect.Java

open Text

/-- The characters of a range that are no white space. -/
def spelled (text : List Char) (s : Span) : List Char := (slice text s).toList.filter (!Lexeme.isSeparator ·)

/-- There is only white space between two offsets. -/
structure Gap (text : List Char) (a b : Nat) : Prop where
  le : a ≤ b
  cuts : Cuts text ⟨a, b⟩
  blank : spelled text ⟨a, b⟩ = []

/-- A range that begins with something else than white space, and with a slash if it is that of a comment. -/
structure Inked (text : List Char) (kind : Kind) (s : Span) : Prop where
  lt : s.start < s.stop
  cuts : Cuts text s
  begins : ∃ c, CharAt text s.start c ∧ Lexeme.isSeparator c = false ∧ (kind.isComment = true → c = '/')

/-- Nodes that follow one another from one offset up to another with only white space between them. -/
def Spread (text : List Char) : Nat → List Node → Nat → Prop
  | lo, [], hi => lo = hi
  | lo, n :: ns, hi => Gap text lo n.span.start ∧ Inked text n.kind n.span ∧ Spread text n.span.stop ns hi

/-- A token begins with something else than white space, and a symbol has none in it. -/
structure Token.Inked (t : Token) : Prop where
  begins : ∃ c cs, t.text.toList = c :: cs ∧ Lexeme.isSeparator c = false
  symbol : t.lexeme = .symbol → ∀ c ∈ t.text.toList, Lexeme.isSeparator c = false

/-- Tokens and their comments that follow one another with only white space between them. -/
def Strung (text : List Char) : Nat → List Token → Prop
  | _, [] => True
  | lo, t :: ts => (∃ mid, Spread text lo t.comments mid ∧ Gap text mid t.span.start) ∧ Remarks t.comments ∧
    t.At text ∧ t.Inked ∧ Strung text t.span.stop ts

/-- A node reaches from its first child to its last with only white space between them. -/
def Node.Packed (text : List Char) (n : Node) : Prop :=
  n.children ≠ [] → Spread text n.span.start n.children n.span.stop

variable {text : List Char} {lo hi : Nat}

theorem spelled_append {a b c : Nat} (hab : Cuts text ⟨a, b⟩) (hc : isBoundary text c = true) (hle : a ≤ b)
    (hle' : b ≤ c) : spelled text ⟨a, c⟩ = spelled text ⟨a, b⟩ ++ spelled text ⟨b, c⟩ := by
  rw [spelled, slice_append hab.1 hab.2 hc hle hle', List.filter_append]
  rfl

theorem spelled_middle (before middle after : List Char) :
    spelled (before ++ middle ++ after) ⟨width before, width before + width middle⟩ =
      middle.filter (!Lexeme.isSeparator ·) := by
  rw [spelled, slice_middle, String.toList_ofList]

theorem Inked.le {kind : Kind} {s : Span} (h : Inked text kind s) : s.start ≤ s.stop := Nat.le_of_lt h.lt

theorem Inked.ne_nil {kind : Kind} {s : Span} (h : Inked text kind s) : spelled text s ≠ [] := by
  obtain ⟨c, hc, hink, -⟩ := h.begins
  have hmem := hc.mem_slice h.cuts (Nat.le_refl _) h.lt
  exact List.ne_nil_of_mem (List.mem_filter.mpr ⟨hmem, by simp [hink]⟩)

theorem Gap.not_inside {a b offset : Nat} {c : Char} (h : Gap text a b) (hc : CharAt text offset c)
    (hink : Lexeme.isSeparator c = false) : offset < a ∨ b ≤ offset := by
  refine Decidable.byContradiction fun hin => ?_
  have hmem : c ∈ spelled text ⟨a, b⟩ :=
    List.mem_filter.mpr ⟨hc.mem_slice h.cuts (show a ≤ offset by omega) (show offset < b by omega), by simp [hink]⟩
  rw [h.blank] at hmem
  cases hmem

theorem Gap.eq_of_charAt {a b : Nat} {c : Char} (h : Gap text a b) (hc : CharAt text a c)
    (hink : Lexeme.isSeparator c = false) : a = b := by
  have hle := h.le
  have hinside := h.not_inside hc hink
  omega

theorem Gap.refl {a : Nat} (h : isBoundary text a = true) : Gap text a a where
  le := Nat.le_refl a
  cuts := ⟨h, h⟩
  blank := by
    obtain ⟨before, after, rfl, rfl⟩ := isBoundary_iff.mp h
    simpa using spelled_middle before [] after

theorem Gap.extend {before blanks after : List Char} {a : Nat} (h : Gap (before ++ blanks ++ after) a (width before))
    (hblanks : ∀ c ∈ blanks, Lexeme.isSeparator c = true) :
    Gap (before ++ blanks ++ after) a (width (before ++ blanks)) := by
  have hcuts := cuts_middle before blanks after
  rw [width_append]
  refine ⟨Nat.le_trans h.le (Nat.le_add_right _ _), ⟨h.cuts.1, hcuts.2⟩, ?_⟩
  rw [spelled_append h.cuts hcuts.2 h.le (Nat.le_add_right _ _), h.blank, spelled_middle, List.nil_append,
    List.filter_eq_nil_iff]
  intro c hc
  simp [hblanks c hc]

theorem Gap.trans {a b c : Nat} (h : Gap text a b) (h' : Gap text b c) : Gap text a c where
  le := Nat.le_trans h.le h'.le
  cuts := ⟨h.cuts.1, h'.cuts.2⟩
  blank := by rw [spelled_append h.cuts h'.cuts.2 h.le h'.le, h.blank, h'.blank, List.nil_append]

theorem spread_nil (text : List Char) (lo : Nat) : Spread text lo [] lo := rfl

theorem Spread.le {ns : List Node} (h : Spread text lo ns hi) : lo ≤ hi := by
  induction ns generalizing lo with
  | nil => exact Nat.le_of_eq h
  | cons n ns ih => exact Nat.le_trans h.1.le (Nat.le_trans h.2.1.le (ih h.2.2))

theorem Spread.stop {n : Node} {ns : List Node} (h : Spread text lo (n :: ns) hi) :
    (Node.spanOf n ns).stop = hi ∧ isBoundary text hi = true := by
  induction ns generalizing lo n with
  | nil =>
    obtain ⟨-, hn, rfl⟩ := h
    exact ⟨rfl, hn.cuts.2⟩
  | cons m ms ih =>
    have hlast : (Node.spanOf n (m :: ms)).stop = (Node.spanOf m ms).stop := by
      rw [Node.spanOf, Node.spanOf, List.getLast?_cons_cons, List.getLast?_cons]
      rfl
    rw [hlast]
    exact ih h.2.2

theorem spread_append {xs ys : List Node} :
    Spread text lo (xs ++ ys) hi ↔ ∃ mid, Spread text lo xs mid ∧ Spread text mid ys hi := by
  induction xs generalizing lo with
  | nil =>
    constructor
    · exact fun h => ⟨lo, rfl, h⟩
    · rintro ⟨_, rfl, h⟩
      exact h
  | cons n ns ih =>
    constructor
    · rintro ⟨hgap, hn, hrest⟩
      obtain ⟨mid, hns, hys⟩ := ih.mp hrest
      exact ⟨mid, ⟨hgap, hn, hns⟩, hys⟩
    · rintro ⟨mid, ⟨hgap, hn, hns⟩, hys⟩
      exact ⟨hgap, hn, ih.mpr ⟨mid, hns, hys⟩⟩

theorem Spread.spelled {ns : List Node} (h : Spread text lo ns hi) (hlo : isBoundary text lo = true) :
    spelled text ⟨lo, hi⟩ = (ns.map fun n => spelled text n.span).flatten := by
  induction ns generalizing lo with
  | nil =>
    obtain rfl := h
    exact (Gap.refl hlo).blank
  | cons n ns ih =>
    have hhi := h.stop.2
    obtain ⟨hgap, hn, hrest⟩ := h
    have hrow : Java.spelled text ⟨n.span.start, hi⟩ = Java.spelled text n.span ++ Java.spelled text ⟨n.span.stop, hi⟩ :=
      spelled_append hn.cuts hhi hn.le hrest.le
    rw [spelled_append hgap.cuts hhi hgap.le (Nat.le_trans hn.le hrest.le), hgap.blank, List.nil_append, hrow,
      ih hrest hn.cuts.2, List.map_cons, List.flatten_cons]

theorem Spread.inked {n : Node} {ns : List Node} {kind : Kind} (h : Spread text lo (n :: ns) hi)
    (hkind : kind.isComment = false) : Inked text kind ⟨n.span.start, hi⟩ := by
  obtain ⟨c, hc, hink, -⟩ := h.2.1.begins
  refine ⟨Nat.lt_of_lt_of_le h.2.1.lt h.2.2.le, ⟨h.1.cuts.2, h.stop.2⟩, c, hc, hink, fun hcomment => ?_⟩
  rw [hkind] at hcomment
  cases hcomment

theorem Spread.of_mem {n : Node} {ns : List Node} (h : Spread text lo ns hi) (hn : n ∈ ns) :
    Inked text n.kind n.span := by
  induction ns generalizing lo with
  | nil => cases hn
  | cons m ms ih =>
    cases hn with
    | head => exact h.2.1
    | tail _ hn => exact ih h.2.2 hn

theorem Spread.le_start {n : Node} {ns : List Node} (h : Spread text lo ns hi) (hn : n ∈ ns) : lo ≤ n.span.start := by
  induction ns generalizing lo with
  | nil => cases hn
  | cons m ms ih =>
    cases hn with
    | head => exact h.1.le
    | tail _ hn => exact Nat.le_trans h.1.le (Nat.le_trans h.2.1.le (ih h.2.2 hn))

theorem Node.Packed.spelled {n : Node} (h : n.Packed text) (hne : n.children ≠ [])
    (hstart : isBoundary text n.span.start = true) :
    Java.spelled text n.span = (n.children.map fun m => Java.spelled text m.span).flatten :=
  (h hne).spelled hstart

theorem packed_leaf (kind : Kind) (span : Span) : (Node.leaf kind span).All (Node.Packed text) :=
  .leaf fun h => absurd rfl h

theorem Node.All.packed_congr {n m : Node} (h : n.All (Node.Packed text)) (hspan : m.span = n.span)
    (hchildren : m.children = n.children) : m.All (Node.Packed text) := by
  refine .mk (fun hne => ?_) fun k hk => h.child (hchildren ▸ hk)
  rw [hspan, hchildren]
  exact h.self (hchildren ▸ hne)

theorem spread_leaf {mid : Nat} {span : Span} {kind : Kind} (hgap : Gap text mid span.start)
    (hspan : Inked text kind span) : Spread text mid [.leaf kind span] span.stop :=
  ⟨hgap, hspan, rfl⟩

theorem inked_middle {before cs after : List Char} {c : Char} {kind : Kind} (hc : Lexeme.isSeparator c = false)
    (hkind : kind.isComment = true → c = '/') :
    Inked (before ++ c :: cs ++ after) kind ⟨width before, width before + width (c :: cs)⟩ where
  lt := Nat.lt_add_of_pos_right (width_pos (List.cons_ne_nil c cs))
  cuts := cuts_middle before (c :: cs) after
  begins := ⟨c, ⟨before, cs ++ after, by simp, rfl⟩, hc, hkind⟩

theorem Token.At.inked {t : Token} {kind : Kind} (h : t.At text) (ht : t.Inked) (hkind : kind.isComment = false) :
    Java.Inked text kind t.span := by
  obtain ⟨before, after, rfl, hspan⟩ := h
  obtain ⟨c, cs, hcs, hc⟩ := ht.begins
  rw [hspan, hcs]
  exact inked_middle hc fun hcomment => absurd (hkind.symm.trans hcomment) Bool.false_ne_true

theorem Remarks.packed {ns : List Node} (h : Remarks ns) : ∀ n ∈ ns, n.All (Node.Packed text) := by
  intro n hn
  obtain ⟨kind, span, rfl, -⟩ := h n hn
  exact packed_leaf kind span

theorem Spread.packed {n first : Node} {rest : List Node} {mid : Nat} (h : Spread text mid (first :: rest) hi)
    (hspan : n.span = ⟨first.span.start, hi⟩) (hchildren : n.children = first :: rest)
    (hall : ∀ m ∈ first :: rest, m.All (Node.Packed text)) : n.All (Node.Packed text) := by
  refine .mk (fun _ => ?_) fun m hm => hall m (hchildren ▸ hm)
  rw [hspan, hchildren]
  exact ⟨.refl h.1.cuts.2, h.2⟩

theorem Spread.withRole {ns : List Node} (r : Role) (h : Spread text lo ns hi) :
    Spread text lo (ns.map (Node.withRoleIfCode r)) hi := by
  induction ns generalizing lo with
  | nil => exact h
  | cons n ns ih =>
    have hsame : (n.withRoleIfCode r).span = n.span ∧ (n.withRoleIfCode r).kind = n.kind := by
      unfold Node.withRoleIfCode
      split <;> cases n <;> exact ⟨rfl, rfl⟩
    rw [List.map_cons, Spread, hsame.1, hsame.2]
    exact ⟨h.1, h.2.1, ih h.2.2⟩

theorem closeAngle?_spread {ts rest : List Token} {xs : List Node} (h : Strung text lo ts)
    (hc : Token.closeAngle? ts = some (xs, rest)) :
    (∃ mid, Spread text lo xs mid ∧ Strung text mid rest) ∧ ∀ x ∈ xs, x.All (Node.Packed text) := by
  cases ts with
  | nil => cases hc
  | cons t ts =>
    obtain ⟨⟨mid, hcomments, hgap⟩, hremarks, hat, hinked, hrest⟩ := h
    simp only [Token.closeAngle?] at hc
    split at hc
    · simp only [Option.some.injEq, Prod.mk.injEq] at hc
      obtain ⟨rfl, rfl⟩ := hc
      exact ⟨⟨t.span.stop, spread_append.mpr ⟨mid, hcomments, spread_leaf hgap (hat.inked hinked rfl)⟩, hrest⟩,
        List.forall_mem_append.mpr ⟨hremarks.packed, List.forall_mem_singleton.mpr (packed_leaf _ _)⟩⟩
    · next cs hlonger hsymbol htext =>
      simp only [Option.some.injEq, Prod.mk.injEq] at hc
      obtain ⟨rfl, rfl⟩ := hc
      -- the sign that is split off is one byte wide, and the rest of the symbol stands right after it
      have hink := hinked.symbol hsymbol
      rw [htext] at hink
      obtain ⟨before, after, he, hs⟩ := hat
      have hone : width ['>'] = 1 := rfl
      have htext' : text = before ++ ['>'] ++ (cs ++ after) := by simp [he, htext]
      have hsign : Java.Inked text .token ⟨t.span.start, t.span.start + width ['>']⟩ := by
        rw [htext', hs]
        exact inked_middle rfl fun hcomment => absurd hcomment Bool.false_ne_true
      refine ⟨⟨t.span.start + 1, spread_append.mpr ⟨mid, hcomments, spread_leaf hgap hsign⟩,
          ⟨_, spread_nil text _, .refl hsign.cuts.2⟩, List.forall_mem_nil _, ⟨before ++ ['>'], after, ?_, ?_⟩, ⟨?_, ?_⟩,
          hrest⟩,
        List.forall_mem_append.mpr ⟨hremarks.packed, List.forall_mem_singleton.mpr (packed_leaf _ _)⟩⟩
      · simp [he, htext]
      · have hwidth : width t.text.toList = 1 + width cs := by rw [htext]; rfl
        simp only [hs, hwidth, width_append, hone, String.toList_ofList, Nat.add_assoc]
      · obtain ⟨c, more, rfl⟩ := List.exists_cons_of_ne_nil hlonger
        exact ⟨c, more, String.toList_ofList, hink c (by simp)⟩
      · rw [String.toList_ofList]
        exact fun _ c hc => hink c (.tail _ hc)
    · cases hc

theorem Reads.ne_nil_of_grows {rule : Rule} {ts rest : List Token} {xs : List Node}
    (h : Reads Grammar.java rule ts xs rest) (hg : rule.Grows) : ∀ x ∈ xs, x.isComment = false → x.children ≠ [] := by
  induction h with
  | node _ hc _ =>
    refine forall_of_close? hc (fun x _ hcomment hcode => absurd (hcomment.symm.trans hcode) nofun) ?_
    exact fun n ns _ _ => List.cons_ne_nil n ns
  | left _ ih => exact ih hg.1
  | right _ ih => exact ih hg.2
  | choose _ ih => exact ih (hg _)
  | absent => exact nofun
  | _ => cases hg

theorem Reads.spread {rule : Rule} {ts rest : List Token} {xs : List Node} (h : Reads Grammar.java rule ts xs rest)
    (hs : rule.Sound) (hts : Strung text lo ts) :
    (∃ mid, Spread text lo xs mid ∧ Strung text mid rest) ∧ ∀ x ∈ xs, x.All (Node.Packed text) := by
  induction h generalizing lo with
  | empty | done | ahead | absent => exact ⟨⟨lo, rfl, hts⟩, nofun⟩
  | @token accept kind t rest _ =>
    obtain ⟨⟨mid, hcomments, hgap⟩, hremarks, hat, hinked, hrest⟩ := hts
    exact ⟨⟨t.span.stop, spread_append.mpr ⟨mid, hcomments, spread_leaf hgap (hat.inked hinked hs.1)⟩, hrest⟩,
      List.forall_mem_append.mpr ⟨hremarks.packed, List.forall_mem_singleton.mpr (packed_leaf _ _)⟩⟩
  | closeAngle hc => exact closeAngle?_spread hts hc
  | seq _ _ ih₁ ih₂ =>
    obtain ⟨⟨a, hx, hmid⟩, hxs⟩ := ih₁ hs.1 hts
    obtain ⟨⟨b, hy, hrest⟩, hys⟩ := ih₂ hs.2 hmid
    exact ⟨⟨b, spread_append.mpr ⟨a, hx, hy⟩, hrest⟩, List.forall_mem_append.mpr ⟨hxs, hys⟩⟩
  | more _ _ ih₁ ih₂ =>
    obtain ⟨⟨a, hx, hmid⟩, hxs⟩ := ih₁ hs hts
    obtain ⟨⟨b, hy, hrest⟩, hys⟩ := ih₂ hs hmid
    exact ⟨⟨b, spread_append.mpr ⟨a, hx, hy⟩, hrest⟩, List.forall_mem_append.mpr ⟨hxs, hys⟩⟩
  | left _ ih => exact ih hs.1 hts
  | right _ ih => exact ih hs.2 hts
  | operand _ ih => exact ih hs.1 hts
  | choose _ ih => exact ih (hs _) hts
  | phrase _ ih => exact ih (java_sound _) hts
  | @node kind content ts rest xs ys _ hc ih =>
    obtain ⟨⟨mid, hx, hrest⟩, hxs⟩ := ih hs.1 hts
    obtain ⟨n, ns, hd, rfl⟩ := close?_eq hc
    rw [← List.takeWhile_append_dropWhile (p := Node.isComment) (l := xs), hd] at hx
    obtain ⟨a, hfront, hrow⟩ := spread_append.mp hx
    have hspan : Node.spanOf n ns = ⟨n.span.start, mid⟩ := by rw [← hrow.stop.1]; rfl
    refine ⟨⟨mid, spread_append.mpr ⟨a, hfront, ?_⟩, hrest⟩,
      List.forall_mem_append.mpr ⟨fun x hx => hxs x (List.takeWhile_subset _ hx), List.forall_mem_singleton.mpr ?_⟩⟩
    · rw [hspan]
      exact ⟨hrow.1, hrow.inked (Kind.isComment_of_isBare hs.2.1), rfl⟩
    · refine hrow.packed hspan rfl fun m hm => hxs m ?_
      exact (List.dropWhile_sublist _).subset (hd ▸ hm)
  | role _ ih =>
    obtain ⟨⟨mid, hx, hrest⟩, hxs⟩ := ih hs.2 hts
    refine ⟨⟨mid, hx.withRole _, hrest⟩, fun x hx => ?_⟩
    obtain ⟨y, hy, rfl⟩ := List.mem_map.mp hx
    unfold Node.withRoleIfCode
    split
    · exact hxs y hy
    · refine (hxs y hy).packed_congr ?_ ?_ <;> cases y <;> rfl
  | @suffix operand suffix ts mid rest xs ys zs _ h₂ ha ih₁ ih₂ =>
    obtain ⟨⟨a, hx, hmid⟩, hxs⟩ := ih₁ hs hts
    obtain ⟨⟨b, hy, hrest⟩, hys⟩ := ih₂ hs.2.1 hmid
    obtain ⟨left, kind, r, span, children, hdx, hdy, left', hkind, hspan, hchildren, rfl⟩ := adopt?_eq ha
    have hcode : kind.isComment = false := isComment_of_dropWhile hdy
    have hleft : left ∈ xs := (List.dropWhile_sublist Node.isComment).subset (by simp [hdx])
    have hgrown : Node.mk kind r span children ∈ ys := (List.dropWhile_sublist Node.isComment).subset (by simp [hdy])
    rw [← List.takeWhile_append_dropWhile (p := Node.isComment) (l := xs), hdx] at hx
    rw [← List.takeWhile_append_dropWhile (p := Node.isComment) (l := ys), hdy] at hy
    obtain ⟨c, hfront, hgap, hink, rfl⟩ := spread_append.mp hx
    obtain ⟨d, hbetween, hgap', -, rfl⟩ := spread_append.mp hy
    -- the operand keeps its range, and the suffix begins where its first child does
    have hsuffix : Spread text d children span.stop := by
      have hne := h₂.ne_nil_of_grows hs.2.2 _ hgrown hcode
      have hrow : Spread text span.start children span.stop := (hys _ hgrown).self hne
      obtain ⟨first, others, rfl⟩ := List.exists_cons_of_ne_nil hne
      exact ⟨hgap'.trans hrow.1, hrow.2⟩
    have hrow : Spread text c (left' :: ys.takeWhile Node.isComment ++ children) span.stop := by
      rw [List.cons_append, Spread, hspan, hkind]
      exact ⟨hgap, hink, spread_append.mpr ⟨d, hbetween, hsuffix⟩⟩
    refine ⟨⟨span.stop, spread_append.mpr ⟨c, hfront, hrow.1, hrow.inked hcode, rfl⟩, hrest⟩,
      List.forall_mem_append.mpr ⟨fun x hx => hxs x (List.takeWhile_subset _ hx), List.forall_mem_singleton.mpr ?_⟩⟩
    refine hrow.packed rfl rfl (List.forall_mem_cons.mpr ⟨(hxs left hleft).packed_congr hspan hchildren, ?_⟩)
    exact List.forall_mem_append.mpr
      ⟨fun m hm => hys m (List.takeWhile_subset _ hm), fun m hm => (hys _ hgrown).child hm⟩

theorem Lexeme.isSeparator_of_next? {cs taken rest : List Char} (h : next? cs = some (.blank, taken, rest)) :
    ∀ c ∈ taken, isSeparator c = true := by
  unfold next? at h
  split at h
  · cases h
  · cases h
  · cases (tagged_eq h).1
  · cases (tagged_eq h).1
  · cases (tagged_eq h).1
  · cases h
  · cases (tagged_eq h).1
  · split at h
    · next hc =>
      simp only [Option.some.injEq, Prod.mk.injEq] at h
      obtain ⟨-, rfl, -⟩ := h
      exact List.forall_mem_cons.mpr ⟨hc, List.all_eq_true.mp List.all_takeWhile⟩
    · split at h
      · cases h
      · split at h
        · cases (tagged_eq h).1
        · cases (tagged_eq h).1

theorem Lexeme.slash_of_next? {l : Lexeme} {cs taken rest : List Char} (h : next? cs = some (l, taken, rest))
    (hl : l = .lineComment ∨ l = .blockComment) : ∃ more, taken = '/' :: more := by
  have hnone : ∀ {m : Lexeme}, m ≠ .lineComment → m ≠ .blockComment → l ≠ m := by
    rintro m hline hblock rfl
    exact hl.elim hline hblock
  unfold next? at h
  split at h
  · cases h
  · simp only [Option.some.injEq, Prod.mk.injEq] at h
    exact ⟨_, h.2.1.symm⟩
  · obtain ⟨-, part, -, rfl⟩ := tagged_eq h
    exact ⟨_, rfl⟩
  · exact absurd (tagged_eq h).1 (hnone nofun nofun)
  · exact absurd (tagged_eq h).1 (hnone nofun nofun)
  · cases h
  · exact absurd (tagged_eq h).1 (hnone nofun nofun)
  · split at h
    · simp only [Option.some.injEq, Prod.mk.injEq] at h
      exact absurd h.1.symm (hnone nofun nofun)
    · split at h
      · simp only [Option.some.injEq, Prod.mk.injEq] at h
        exact absurd h.1.symm (hnone nofun nofun)
      · split at h
        · exact absurd (tagged_eq h).1 (hnone nofun nofun)
        · exact absurd (tagged_eq h).1 (hnone nofun nofun)

theorem Lexeme.inked_of_next? {l : Lexeme} {cs taken rest : List Char} (h : next? cs = some (l, taken, rest))
    (hl : l ≠ .blank) : (∃ c more, taken = c :: more ∧ isSeparator c = false) ∧
      (l = .symbol → ∀ c ∈ taken, isSeparator c = false) := by
  have hsymbol : l = .symbol → ∀ c ∈ taken, isSeparator c = false := by
    rintro rfl
    obtain ⟨s, hs, rfl⟩ := mem_symbols h
    have hall : (symbols.all fun s => s.toList.all (!isSeparator ·)) = true := by decide
    simpa using List.all_eq_true.mp (List.all_eq_true.mp hall s hs)
  refine ⟨?_, hsymbol⟩
  unfold next? at h
  split at h
  · cases h
  · obtain ⟨-, rfl, -⟩ := Prod.mk.injEq .. ▸ Option.some.inj h
    exact ⟨_, _, rfl, by decide⟩
  · obtain ⟨-, part, -, rfl⟩ := tagged_eq h
    exact ⟨_, _, rfl, by decide⟩
  · obtain ⟨-, part, -, rfl⟩ := tagged_eq h
    exact ⟨_, _, rfl, by decide⟩
  · obtain ⟨-, part, -, rfl⟩ := tagged_eq h
    exact ⟨_, _, rfl, by decide⟩
  · cases h
  · obtain ⟨-, part, -, rfl⟩ := tagged_eq h
    exact ⟨_, _, rfl, by decide⟩
  · split at h
    · simp only [Option.some.injEq, Prod.mk.injEq] at h
      exact absurd h.1.symm hl
    · next hc =>
      rw [Bool.not_eq_true] at hc
      split at h
      · simp only [Option.some.injEq, Prod.mk.injEq] at h
        exact ⟨_, _, h.2.1.symm, hc⟩
      · split at h
        · obtain ⟨-, part, -, rfl⟩ := tagged_eq h
          exact ⟨_, _, rfl, hc⟩
        · obtain ⟨rfl, part, hfound, rfl⟩ := tagged_eq h
          have hne := ne_nil_of_symbol? hfound
          obtain ⟨d, more, rfl⟩ := List.exists_cons_of_ne_nil hne
          exact ⟨d, more, rfl, hsymbol rfl d (by simp)⟩

theorem assemble_strung {before : List Char} {comments trailing : List Node} {ls : List (Lexeme × List Char)}
    {tokens : List Token} {mid : Nat} (htext : text = before ++ Lexeme.chars ls) (hcut : Lexeme.Cut ls)
    (hcomments : Spread text lo comments mid) (hgap : Gap text mid (width before)) (hremarks : Remarks comments)
    (h : Token.assemble (width before) comments ls = (tokens, trailing)) : Strung text lo tokens := by
  induction ls generalizing lo before comments tokens mid with
  | nil =>
    simp only [Token.assemble, Prod.mk.injEq] at h
    obtain ⟨rfl, -⟩ := h
    trivial
  | cons l ls ih =>
    obtain ⟨l, cs⟩ := l
    have hnext : text = (before ++ cs) ++ Lexeme.chars ls := by simp [htext]
    have hstop : width before + width cs = width (before ++ cs) := (width_append before cs).symm
    have hcuts : Cuts text ⟨width before, width (before ++ cs)⟩ := by
      rw [hnext, ← hstop]
      exact cuts_middle before cs _
    have hcomment (kind : Kind) (hl : l = .lineComment ∨ l = .blockComment) : Spread text lo
        (comments ++ [.leaf kind ⟨width before, width (before ++ cs)⟩]) (width (before ++ cs)) := by
      refine spread_append.mpr ⟨mid, hcomments, spread_leaf hgap ?_⟩
      obtain ⟨more, rfl⟩ := Lexeme.slash_of_next? hcut.1 hl
      rw [hnext, ← hstop]
      exact inked_middle rfl fun _ => rfl
    cases l with
    | blank =>
      simp only [Token.assemble, hstop] at h
      have hblank : Gap text mid (width (before ++ cs)) := by
        rw [hnext] at hgap ⊢
        exact hgap.extend (Lexeme.isSeparator_of_next? hcut.1)
      exact ih hnext hcut.2 hcomments hblank hremarks h
    | lineComment | blockComment =>
      simp only [Token.assemble, hstop] at h
      exact ih hnext hcut.2 (hcomment _ (by simp)) (.refl hcuts.2) (hremarks.append rfl) h
    | word | number | character | string | symbol =>
      simp only [Token.assemble, hstop, Prod.mk.injEq] at h
      obtain ⟨rfl, rfl⟩ := h
      obtain ⟨hbegins, hsymbol⟩ := Lexeme.inked_of_next? hcut.1 (by decide)
      refine ⟨⟨mid, hcomments, hgap⟩, hremarks, ⟨before, Lexeme.chars ls, ?_, ?_⟩,
        ⟨by rwa [String.toList_ofList], by rwa [String.toList_ofList]⟩, ?_⟩
      · simpa using htext
      · simp [hstop]
      · exact ih hnext hcut.2 (spread_nil text _) (.refl hcuts.2) (List.forall_mem_nil _) rfl

theorem Remain.strung {ts : List Token} (h : Remain text ts) : ∃ lo, Strung text lo ts := by
  obtain ⟨before, ls, trailing, htext, hcut, hassemble⟩ := h
  have hstart : isBoundary text (width before) = true := htext ▸ isBoundary_width before _
  exact ⟨width before, assemble_strung htext hcut (spread_nil text _) (.refl hstart) (List.forall_mem_nil _) hassemble⟩

theorem parse?_packed {tree : Node} (h : parse? text = some tree) :
    ∀ n ∈ tree.children, n.All (Node.Packed text) := by
  obtain ⟨tokens, trailing, nodes, ht, hr, rfl⟩ := parse?_reads h
  obtain ⟨mid, -, -, hremarks⟩ := read_lined ht
  obtain ⟨lo, hstrung⟩ := (read_remain ht).strung
  exact List.forall_mem_append.mpr ⟨(hr.spread topLevel_sound hstrung).2, hremarks.packed⟩

theorem parse?_inked {tree : Node} (h : parse? text = some tree) :
    ∀ n ∈ tree.children, n.isComment = false → Inked text n.kind n.span := by
  obtain ⟨tokens, trailing, nodes, ht, hr, rfl⟩ := parse?_reads h
  obtain ⟨mid, -, -, hremarks⟩ := read_lined ht
  obtain ⟨lo, hstrung⟩ := (read_remain ht).strung
  obtain ⟨⟨_, hspread, -⟩, -⟩ := hr.spread topLevel_sound hstrung
  refine List.forall_mem_append.mpr ⟨fun n hn _ => hspread.of_mem hn, fun n hn hcode => ?_⟩
  rw [hremarks.isComment n hn] at hcode
  cases hcode

end MockDialect.Java

namespace MockDialect.Source

open Java

theorem File.read_packed (source : String) {c : Cursor} (h : Cursor.In (File.read source).tree c)
    (hkind : c.kind ≠ .program) : c.node.All (Node.Packed (File.read source).text) := by
  rw [(File.read_sound source).text, File.source_read]
  exact File.all_of_parse? (fun _ => parse?_packed) h hkind

end MockDialect.Source
