import MockDialect.Proofs.Java.Lexing
import MockDialect.Proofs.Java.Reading
import MockDialect.Proofs.Text.Boundary

namespace MockDialect.Java

open Text

/-- What holds of a node and of all nodes below it. -/
inductive Node.All (P : Node → Prop) : Node → Prop where
  | mk {n : Node} (here : P n) (below : ∀ m ∈ n.children, All P m) : All P n

theorem Node.All.self {P : Node → Prop} {n : Node} (h : n.All P) : P n := by
  cases h with
  | mk here _ => exact here

theorem Node.All.child {P : Node → Prop} {n m : Node} (h : n.All P) (hm : m ∈ n.children) : m.All P := by
  cases h with
  | mk _ below => exact below m hm

theorem Node.All.imp {P Q : Node → Prop} (h : ∀ {m : Node}, P m → Q m) {n : Node} (hn : n.All P) : n.All Q := by
  induction hn with
  | mk self _ ih => exact .mk (h self) ih

theorem Node.All.leaf {P : Node → Prop} {kind : Kind} {span : Span} (h : P (.leaf kind span)) :
    (Node.leaf kind span).All P :=
  .mk h (fun _ hm => nomatch hm)

/-- A node whose ranges nest and end between characters. -/
structure Node.Placed (text : List Char) (n : Node) : Prop where
  wellFormed : n.WellFormed
  cuts : n.All fun m => Cuts text m.span

/-- Nodes that follow one another between two offsets. -/
def Laid (text : List Char) : Nat → List Node → Nat → Prop
  | lo, [], hi => lo ≤ hi
  | lo, n :: ns, hi => lo ≤ n.span.start ∧ n.Placed text ∧ Laid text n.span.stop ns hi

variable {text : List Char}

theorem Node.WellFormed.ordered {n : Node} (h : n.WellFormed) : n.span.start ≤ n.span.stop := by
  cases h with
  | mk ordered _ _ _ => exact ordered

theorem Laid.le {lo hi : Nat} {xs : List Node} (h : Laid text lo xs hi) : lo ≤ hi := by
  induction xs generalizing lo with
  | nil => exact h
  | cons n ns ih => exact Nat.le_trans h.1 (Nat.le_trans h.2.1.wellFormed.ordered (ih h.2.2))

theorem Laid.weaken {lo lo' hi : Nat} {xs : List Node} (h : Laid text lo xs hi) (hle : lo' ≤ lo) :
    Laid text lo' xs hi := by
  cases xs with
  | nil => exact Nat.le_trans hle h
  | cons n ns => exact ⟨Nat.le_trans hle h.1, h.2⟩

theorem Laid.extend {lo hi hi' : Nat} {xs : List Node} (h : Laid text lo xs hi) (hle : hi ≤ hi') :
    Laid text lo xs hi' := by
  induction xs generalizing lo with
  | nil => exact Nat.le_trans h hle
  | cons n ns ih => exact ⟨h.1, h.2.1, ih h.2.2⟩

theorem laid_append {lo hi : Nat} {xs ys : List Node} :
    Laid text lo (xs ++ ys) hi ↔ ∃ mid, Laid text lo xs mid ∧ Laid text mid ys hi := by
  induction xs generalizing lo with
  | nil => exact ⟨fun h => ⟨lo, Nat.le_refl lo, h⟩, fun ⟨_, hle, h⟩ => h.weaken hle⟩
  | cons n ns ih =>
    constructor
    · rintro ⟨hlo, hn, hrest⟩
      obtain ⟨mid, hns, hys⟩ := ih.mp hrest
      exact ⟨mid, ⟨hlo, hn, hns⟩, hys⟩
    · rintro ⟨mid, ⟨hlo, hn, hns⟩, hys⟩
      exact ⟨hlo, hn, ih.mpr ⟨mid, hns, hys⟩⟩

theorem Laid.of_mem {lo hi : Nat} {xs : List Node} {n : Node} (h : Laid text lo xs hi) (hn : n ∈ xs) :
    lo ≤ n.span.start ∧ n.span.stop ≤ hi ∧ n.Placed text := by
  induction xs generalizing lo with
  | nil => cases hn
  | cons m ms ih =>
    cases hn with
    | head => exact ⟨h.1, h.2.2.le, h.2.1⟩
    | tail _ hn =>
      obtain ⟨hlo, hhi, hp⟩ := ih h.2.2 hn
      have hm := h.2.1.wellFormed.ordered
      exact ⟨Nat.le_trans h.1 (Nat.le_trans hm hlo), hhi, hp⟩

theorem Laid.pairwise {lo hi : Nat} {xs : List Node} (h : Laid text lo xs hi) :
    xs.Pairwise fun a b => a.span.stop ≤ b.span.start := by
  induction xs generalizing lo with
  | nil => exact .nil
  | cons n ns ih => exact .cons (fun m hm => (h.2.2.of_mem hm).1) (ih h.2.2)

theorem Laid.placed {kind : Kind} {r : Option Role} {s : Span} {xs : List Node}
    (h : Laid text s.start xs s.stop) (hs : Cuts text s) : (Node.mk kind r s xs).Placed text where
  wellFormed := .mk h.le
    (fun _ hn => Span.contains_iff.mpr ⟨(h.of_mem hn).1, (h.of_mem hn).2.1⟩) h.pairwise
    (fun _ hn => (h.of_mem hn).2.2.wellFormed)
  cuts := .mk hs (fun _ hn => (h.of_mem hn).2.2.cuts)

theorem Node.Placed.laid {n : Node} (h : n.Placed text) : Laid text n.span.start n.children n.span.stop := by
  obtain ⟨hwf, hcuts⟩ := h
  cases hwf with
  | @mk k r s xs ordered inside apart below =>
    change Laid text s.start xs s.stop
    have hbelow : ∀ n ∈ xs, n.Placed text := fun n hn => ⟨below n hn, hcuts.child hn⟩
    clear below hcuts
    obtain ⟨start, stop⟩ := s
    induction xs generalizing start with
    | nil => exact ordered
    | cons n ns ih =>
      have hn := Span.contains_iff.mp (inside n (.head ns))
      obtain ⟨hapart, hns⟩ := List.pairwise_cons.mp apart
      refine ⟨hn.1, hbelow n (.head ns), ih hns (fun m hm => hbelow m (.tail n hm)) n.span.stop hn.2 ?_⟩
      exact fun m hm => Span.contains_iff.mpr
        ⟨hapart m hm, (Span.contains_iff.mp (inside m (.tail n hm))).2⟩

theorem Laid.tighten {lo hi : Nat} {n : Node} {ns : List Node} (h : Laid text lo (n :: ns) hi) :
    Laid text lo (n :: ns) (Node.spanOf n ns).stop ∧ (Node.spanOf n ns).stop ≤ hi ∧
      isBoundary text (Node.spanOf n ns).stop = true := by
  induction ns generalizing lo n with
  | nil => exact ⟨⟨h.1, h.2.1, Nat.le_refl _⟩, h.2.2, h.2.1.cuts.self.2⟩
  | cons m ms ih =>
    have hlast : (Node.spanOf n (m :: ms)).stop = (Node.spanOf m ms).stop := by
      rw [Node.spanOf, Node.spanOf, List.getLast?_cons_cons, List.getLast?_cons]
      rfl
    obtain ⟨hrow, hle, hcut⟩ := ih h.2.2
    rw [hlast]
    exact ⟨⟨h.1, h.2.1, hrow⟩, hle, hcut⟩

theorem close?_laid {lo hi : Nat} {kind : Kind} {xs ys : List Node} (h : Laid text lo xs hi)
    (hc : Node.close? kind xs = some ys) : Laid text lo ys hi := by
  unfold Node.close? at hc
  split at hc
  · cases hc
  · next n ns hd =>
    simp only [Option.some.injEq] at hc
    subst hc
    rw [← List.takeWhile_append_dropWhile (p := Node.isComment) (l := xs), hd] at h
    obtain ⟨mid, hfront, hrow⟩ := laid_append.mp h
    obtain ⟨htight, hle, hcut⟩ := hrow.tighten
    refine laid_append.mpr ⟨mid, hfront, hrow.1, ?_, hle⟩
    exact Laid.placed ⟨Nat.le_refl _, htight.2⟩ ⟨hrow.2.1.cuts.self.1, hcut⟩

@[simp] theorem span_withRole (r : Role) (n : Node) : (n.withRole r).span = n.span := by
  cases n
  rfl

theorem Node.Placed.withRole {n : Node} (r : Role) (h : n.Placed text) : (n.withRole r).Placed text := by
  cases n with
  | mk kind _ span children => exact Laid.placed h.laid h.cuts.self

theorem Laid.withRole {lo hi : Nat} {xs : List Node} (r : Role) (h : Laid text lo xs hi) :
    Laid text lo (xs.map (Node.withRoleIfCode r)) hi := by
  induction xs generalizing lo with
  | nil => exact h
  | cons n ns ih =>
    simp only [List.map_cons, Node.withRoleIfCode]
    split
    · exact ⟨h.1, h.2.1, ih h.2.2⟩
    · refine ⟨?_, h.2.1.withRole r, ?_⟩
      · rw [span_withRole]; exact h.1
      · rw [span_withRole]; exact ih h.2.2

theorem adopt?_eq {xs ys zs : List Node} (h : Node.adopt? xs ys = some zs) :
    ∃ left kind r span children, xs.dropWhile Node.isComment = [left] ∧
      ys.dropWhile Node.isComment = [.mk kind r span children] ∧
      ∃ left' : Node, left'.kind = left.kind ∧ left'.span = left.span ∧ left'.children = left.children ∧
        zs = xs.takeWhile Node.isComment ++ [.mk kind none ⟨left'.span.start, span.stop⟩
          (left' :: ys.takeWhile Node.isComment ++ children)] := by
  unfold Node.adopt? at h
  split at h
  · next left kind r span children hx hy =>
    simp only [Option.some.injEq] at h
    refine ⟨left, kind, r, span, children, hx, hy, _, ?_, ?_, ?_, h.symm⟩
    all_goals
      cases left
      split <;> rfl
  · cases h

theorem Node.Placed.congr {n m : Node} (h : n.Placed text) (hspan : m.span = n.span)
    (hchildren : m.children = n.children) : m.Placed text := by
  obtain ⟨kind, r, span, children⟩ := m
  obtain rfl : span = n.span := hspan
  obtain rfl : children = n.children := hchildren
  exact h.laid.placed h.cuts.self

theorem adopt?_laid {lo mid hi : Nat} {xs ys zs : List Node} (hx : Laid text lo xs mid)
    (hy : Laid text mid ys hi) (ha : Node.adopt? xs ys = some zs) : Laid text lo zs hi := by
  obtain ⟨left, kind, r, span, children, hdx, hdy, left', -, hspan, hchildren, rfl⟩ := adopt?_eq ha
  rw [← List.takeWhile_append_dropWhile (p := Node.isComment) (l := xs), hdx] at hx
  rw [← List.takeWhile_append_dropWhile (p := Node.isComment) (l := ys), hdy] at hy
  obtain ⟨a, hfront, hleft⟩ := laid_append.mp hx
  obtain ⟨b, hbetween, hsuffix⟩ := laid_append.mp hy
  -- the operand keeps its range whether or not it is given a role
  have hplaced : left'.Placed text := hleft.2.1.congr hspan hchildren
  have hinner : Laid text left'.span.stop (ys.takeWhile Node.isComment ++ children) span.stop := by
    rw [hspan]
    exact laid_append.mpr ⟨b, hbetween.weaken hleft.2.2, hsuffix.2.1.laid.weaken hsuffix.1⟩
  refine laid_append.mpr ⟨a, hfront, ?_, ?_, hsuffix.2.2⟩
  · change a ≤ left'.span.start
    rw [hspan]
    exact hleft.1
  · exact Laid.placed ⟨Nat.le_refl _, hplaced, hinner⟩ ⟨hplaced.cuts.self.1, hsuffix.2.1.cuts.self.2⟩

/-- A token stands in a text as it is spelled. -/
def Token.At (text : List Char) (t : Token) : Prop :=
  ∃ before after, text = before ++ t.text.toList ++ after ∧
    t.span = ⟨width before, width before + width t.text.toList⟩

def Remarks (ns : List Node) : Prop := ∀ n ∈ ns, ∃ kind span, n = .leaf kind span ∧ kind.isComment = true

/-- Tokens with their comments that follow one another between two offsets. -/
def Lined (text : List Char) : Nat → List Token → Nat → Prop
  | lo, [], hi => lo ≤ hi
  | lo, t :: ts, hi =>
    Laid text lo t.comments t.span.start ∧ Remarks t.comments ∧ t.At text ∧ Lined text t.span.stop ts hi

theorem Token.At.cuts {t : Token} (h : t.At text) : Cuts text t.span := by
  obtain ⟨before, after, rfl, hs⟩ := h
  rw [hs]
  exact cuts_middle before t.text.toList after

theorem placed_leaf {s : Span} (kind : Kind) (hle : s.start ≤ s.stop) (hs : Cuts text s) :
    (Node.leaf kind s).Placed text :=
  Laid.placed (show Laid text s.start [] s.stop from hle) hs

theorem Token.At.ordered {t : Token} (h : t.At text) : t.span.start ≤ t.span.stop := by
  obtain ⟨before, after, -, hs⟩ := h
  rw [hs]
  exact Nat.le_add_right _ _

theorem closeAngle?_laid {lo hi : Nat} {ts rest : List Token} {xs : List Node} (h : Lined text lo ts hi)
    (hc : Token.closeAngle? ts = some (xs, rest)) :
    ∃ mid, Laid text lo xs mid ∧ Lined text mid rest hi := by
  cases ts with
  | nil => cases hc
  | cons t ts =>
    obtain ⟨hcomments, -, hat, hrest⟩ := h
    simp only [Token.closeAngle?] at hc
    split at hc
    · simp only [Option.some.injEq, Prod.mk.injEq] at hc
      obtain ⟨rfl, rfl⟩ := hc
      refine ⟨t.span.stop, laid_append.mpr ⟨t.span.start, hcomments, Nat.le_refl _, ?_, Nat.le_refl _⟩, hrest⟩
      exact placed_leaf .token hat.ordered hat.cuts
    · next cs _ _ htext =>
      simp only [Option.some.injEq, Prod.mk.injEq] at hc
      obtain ⟨rfl, rfl⟩ := hc
      -- the sign that is split off is one byte wide, and the rest of the symbol stands right after it
      obtain ⟨before, after, he, hs⟩ := hat
      have hwidth : width t.text.toList = 1 + width cs := by rw [htext]; rfl
      have hspan : (⟨t.span.start, t.span.start + 1⟩ : Span) =
          ⟨width before, width before + width ['>']⟩ := by rw [hs]; rfl
      have hcut : Cuts text ⟨t.span.start, t.span.start + 1⟩ := by
        rw [hspan, he, htext]
        simpa using cuts_middle before ['>'] (cs ++ after)
      refine ⟨t.span.start + 1,
        laid_append.mpr ⟨t.span.start, hcomments, Nat.le_refl _, ?_, Nat.le_refl _⟩,
        Nat.le_refl _, nofun, ⟨before ++ ['>'], after, ?_, ?_⟩, hrest⟩
      · exact placed_leaf .token (Nat.le_succ _) hcut
      · simp [he, htext]
      · have hone : width ['>'] = 1 := rfl
        simp only [hs, hwidth, width_append, hone, String.toList_ofList, Nat.add_assoc]
    · cases hc

theorem Reads.laid {grammar : Phrase → Rule} {rule : Rule} {lo hi : Nat} {ts rest : List Token}
    {xs : List Node} (h : Reads grammar rule ts xs rest) (hts : Lined text lo ts hi) :
    ∃ mid, Laid text lo xs mid ∧ Lined text mid rest hi := by
  induction h generalizing lo with
  | empty | done | ahead | absent => exact ⟨lo, Nat.le_refl lo, hts⟩
  | @token accept kind t rest _ =>
    obtain ⟨hcomments, -, hat, hrest⟩ := hts
    refine ⟨t.span.stop, laid_append.mpr ⟨t.span.start, hcomments, Nat.le_refl _, ?_, Nat.le_refl _⟩, hrest⟩
    exact placed_leaf kind hat.ordered hat.cuts
  | closeAngle hc => exact closeAngle?_laid hts hc
  | seq _ _ ih₁ ih₂ | more _ _ ih₁ ih₂ =>
    obtain ⟨a, hx, hmid⟩ := ih₁ hts
    obtain ⟨b, hy, hrest⟩ := ih₂ hmid
    exact ⟨b, laid_append.mpr ⟨a, hx, hy⟩, hrest⟩
  | left _ ih | right _ ih | operand _ ih | choose _ ih | phrase _ ih => exact ih hts
  | node _ hc ih =>
    obtain ⟨mid, hx, hrest⟩ := ih hts
    exact ⟨mid, close?_laid hx hc, hrest⟩
  | role _ ih =>
    obtain ⟨mid, hx, hrest⟩ := ih hts
    exact ⟨mid, hx.withRole _, hrest⟩
  | suffix _ _ ha ih₁ ih₂ =>
    obtain ⟨a, hx, hmid⟩ := ih₁ hts
    obtain ⟨b, hy, hrest⟩ := ih₂ hmid
    exact ⟨b, adopt?_laid hx hy ha, hrest⟩

theorem Remarks.append {ns : List Node} {kind : Kind} {span : Span} (h : Remarks ns)
    (hkind : kind.isComment = true) : Remarks (ns ++ [.leaf kind span]) := by
  intro n hn
  rcases List.mem_append.mp hn with hn | hn
  · exact h n hn
  · exact ⟨kind, span, List.mem_singleton.mp hn, hkind⟩

theorem assemble_lined {lo : Nat} {before : List Char} {comments trailing : List Node}
    {ls : List (Lexeme × List Char)} {tokens : List Token}
    (htext : text = before ++ (ls.map Prod.snd).flatten) (hcomments : Laid text lo comments (width before))
    (hremarks : Remarks comments)
    (h : Token.assemble (width before) comments ls = (tokens, trailing)) :
    ∃ mid, Lined text lo tokens mid ∧ Laid text mid trailing (width text) ∧ Remarks trailing := by
  induction ls generalizing lo before comments tokens with
  | nil =>
    simp only [Token.assemble, Prod.mk.injEq] at h
    obtain ⟨rfl, rfl⟩ := h
    simp only [List.map_nil, List.flatten_nil, List.append_nil] at htext
    subst htext
    exact ⟨lo, Nat.le_refl lo, hcomments, hremarks⟩
  | cons l ls ih =>
    obtain ⟨l, cs⟩ := l
    have hnext : text = (before ++ cs) ++ (ls.map Prod.snd).flatten := by simp [htext]
    have hstop : width before + width cs = width (before ++ cs) := (width_append before cs).symm
    have hle : width before ≤ width (before ++ cs) := hstop ▸ Nat.le_add_right _ _
    have hcut : Cuts text ⟨width before, width (before ++ cs)⟩ := by
      rw [hnext, ← hstop]
      exact cuts_middle before cs _
    have hcomment (kind : Kind) : Laid text lo
        (comments ++ [.leaf kind ⟨width before, width (before ++ cs)⟩]) (width (before ++ cs)) :=
      laid_append.mpr ⟨width before, hcomments, Nat.le_refl _, placed_leaf kind hle hcut, Nat.le_refl _⟩
    cases l with
    | blank =>
      simp only [Token.assemble, hstop] at h
      exact ih hnext (hcomments.extend hle) hremarks h
    | lineComment | blockComment =>
      simp only [Token.assemble, hstop] at h
      exact ih hnext (hcomment _) (hremarks.append rfl) h
    | word | number | character | string | symbol =>
      simp only [Token.assemble, hstop, Prod.mk.injEq] at h
      obtain ⟨rfl, rfl⟩ := h
      obtain ⟨mid, hlined, htrailing⟩ := ih hnext (Nat.le_refl _ : Laid text _ [] _) (nofun : Remarks []) rfl
      refine ⟨mid, ⟨hcomments, hremarks, ⟨before, (ls.map Prod.snd).flatten, ?_, ?_⟩, hlined⟩, htrailing⟩
      · simpa using htext
      · simp [hstop]

theorem read_lined {tokens : List Token} {trailing : List Node}
    (h : Token.read text = some (tokens, trailing)) :
    ∃ mid, Lined text 0 tokens mid ∧ Laid text mid trailing (width text) ∧ Remarks trailing := by
  have hstart : Laid text 0 [] (width []) := Nat.le_refl 0
  unfold Token.read at h
  split at h
  · next c rest =>
    split at h
    · obtain ⟨ls, hl, ha⟩ := Option.map_eq_some_iff.mp h
      have hflat : c :: rest = [] ++ (((.blank, [c]) :: ls).map Prod.snd).flatten := by
        simp [Lexeme.cut_flatten hl]
      exact assemble_lined hflat hstart nofun ha
    · obtain ⟨ls, hl, ha⟩ := Option.map_eq_some_iff.mp h
      exact assemble_lined (by simp [Lexeme.cut_flatten hl]) hstart nofun ha
  · simp only [Option.some.injEq, Prod.mk.injEq] at h
    obtain ⟨rfl, rfl⟩ := h
    exact ⟨0, Nat.le_refl 0, Nat.le_refl 0, nofun⟩

theorem parse?_placed {tree : Node} (h : parse? text = some tree) : tree.Placed text := by
  obtain ⟨tokens, trailing, nodes, ht, hr, rfl⟩ := parse?_reads h
  obtain ⟨mid, hlined, htrailing, -⟩ := read_lined ht
  obtain ⟨stop, hnodes, hrest⟩ := hr.laid hlined
  have hrow : Laid text 0 (nodes ++ trailing) (width text) :=
    laid_append.mpr ⟨stop, hnodes, htrailing.weaken hrest⟩
  have hend := isBoundary_end text
  cases hall : nodes ++ trailing with
  | nil => exact Laid.placed (Nat.le_refl _) ⟨hend, hend⟩
  | cons n ns =>
    rw [hall] at hrow
    exact Laid.placed ⟨Nat.le_refl _, hrow.2⟩ ⟨hrow.2.1.cuts.self.1, hend⟩

end MockDialect.Java
