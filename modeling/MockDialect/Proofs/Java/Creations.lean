import MockDialect.Proofs.Java.Listing

namespace MockDialect.Java

open Text

/-- Nothing but `new`, a type and an empty list of arguments. -/
def Node.isBare (n : Node) : Bool :=
  match n.children with
  | [_, _, list] => list.children.length == 2
  | _ => false

def Node.EndsWith (text : List Char) (n : Node) (word : String) : Prop :=
  ∃ (front : List Node) (t : Token), n.children = front ++ [.leaf .token t.span] ∧ t.text = word ∧ t.At text

/-- The parts of an expression that creates an object. -/
structure Creates (text : List Char) (row front between middle body : List Node) (word type list : Node) : Prop where
  row_eq : row = front ++ word :: between ++ type :: middle ++ list :: body
  spells : spelled text word.span = "new".toList
  plain : ∀ x ∈ word :: between, x.role = none
  typed : type.role = some .type
  listed : list.kind = .argumentList
  closed : ∃ lead last word, list :: body = lead ++ [last] ∧ last.EndsWith text word ∧ (word = ")" ∨ word = "\x7d")

variable {text : List Char} {rule : Rule} {ts rest : List Token} {xs : List Node} {lo hi : Nat} {n : Node}

theorem Token.At.spelled {t : Token} {cs : List Char} (h : t.At text) (ht : t.text.toList = cs)
    (hcs : cs.all (!Lexeme.isSeparator ·) = true) : Java.spelled text t.span = cs := by
  obtain ⟨before, after, rfl, hspan⟩ := h
  rw [hspan, spelled_middle, ht, List.filter_eq_self]
  exact List.all_eq_true.mp hcs

theorem Reads.forall_many {P : Node → Prop} {item : Rule} (h : Reads Grammar.java (.many item) ts xs rest)
    (hts : Lined text lo ts hi)
    (hitem : ∀ {ts rest : List Token} {xs : List Node} {lo : Nat}, Reads Grammar.java item ts xs rest →
      Lined text lo ts hi → ∀ x ∈ xs, P x) : ∀ x ∈ xs, P x := by
  generalize hrule : Rule.many item = rule at h
  induction h generalizing lo with
  | done => exact nofun
  | more h₁ _ _ ih =>
    obtain rfl := Rule.many.inj hrule
    obtain ⟨_, _, hmid⟩ := h₁.laid hts
    exact List.forall_mem_append.mpr ⟨hitem h₁ hts, ih hmid rfl⟩
  | _ => cases hrule

theorem annotations_plain (h : Reads Grammar.java Grammar.annotations ts xs rest) (hts : Lined text lo ts hi) :
    ∀ x ∈ xs, x.role = none := by
  refine h.forall_many hts fun hitem hts => ?_
  cases hitem with
  | phrase inner => exact inner.plain (by simp [Grammar.java, Grammar.annotationRule, Rule.all]) hts

theorem typeArguments_plain (h : Reads Grammar.java Grammar.typeArguments.optional ts xs rest)
    (hts : Lined text lo ts hi) : ∀ x ∈ xs, x.role = none := by
  cases h with
  | left h =>
    cases h with
    | phrase inner => exact inner.plain trivial hts
  | right h =>
    cases h
    exact nofun

theorem Reads.endsWith {kind : Kind} {content : Rule} {word : String}
    (h : Reads Grammar.java (.node kind content) ts xs rest) (he : content.Ends word) (hts : Lined text lo ts hi) :
    ∃ lead n, xs = lead ++ [n] ∧ n.kind = kind ∧ n.EndsWith text word := by
  cases h with
  | node inner hc =>
    obtain ⟨t, nodes, rfl, ht, hat⟩ := inner.ends he hts
    obtain ⟨n, ns, hrow, rfl⟩ := close?_eq hc
    rw [dropWhile_ends] at hrow
    exact ⟨_, _, rfl, rfl, nodes.dropWhile Node.isComment, t, hrow.symm, ht, hat⟩

theorem arguments_list (h : Reads Grammar.java Grammar.arguments ts xs rest) (hts : Lined text lo ts hi) :
    ∃ middle list, xs = middle ++ [list] ∧ list.kind = .argumentList ∧ list.EndsWith text ")" := by
  cases h with
  | role h =>
    cases h with
    | phrase h =>
      obtain ⟨lead, list, rfl, hkind, hends⟩ :=
        h.endsWith (show Rule.Ends ")" _ from ⟨rfl, fun _ => Rule.word_text⟩) hts
      refine ⟨_, _, List.map_append, (kind_withRoleIfCode _ _).trans hkind, ?_⟩
      rwa [Node.EndsWith, children_withRoleIfCode]

theorem anonymousBody_ends (h : Reads Grammar.java Grammar.anonymousBody ts xs rest) (hts : Lined text lo ts hi) :
    xs = [] ∨ ∃ lead body, xs = lead ++ [body] ∧ body.EndsWith text "\x7d" := by
  cases h with
  | left h =>
    cases h with
    | phrase h =>
      obtain ⟨lead, body, rfl, -, hends⟩ :=
        h.endsWith (show Rule.Ends "\x7d" _ from ⟨rfl, fun _ => Rule.word_text⟩) hts
      exact .inr ⟨lead, body, rfl, hends⟩
  | right h =>
    cases h
    exact .inl rfl

theorem type_single (h : Reads Grammar.java (.role .type Grammar.simpleType) ts xs rest) (hts : Lined text lo ts hi) :
    ∃ lead type, xs = lead ++ [type] ∧ (∀ x ∈ lead, x.role = none) ∧ type.role = some .type := by
  cases h with
  | @role _ _ _ _ ys inner =>
    obtain ⟨front, n, rfl, hfront, hn⟩ := inner.single simpleType_single hts
    refine ⟨front, n.withRole .type, ?_, fun x hx => ?_, by cases n; rfl⟩
    · have hsame : front.map (Node.withRoleIfCode .type) = front := by
        refine (List.map_congr_left fun x hx => ?_).trans (List.map_id front)
        rw [Node.withRoleIfCode, hfront x hx]
        rfl
      rw [List.map_append, hsame, List.map_singleton, Node.withRoleIfCode, hn]
      rfl
    · exact inner.role_of_comment hts x (List.mem_append_left _ hx) (hfront x hx)

theorem Reads.creation (h : Reads Grammar.java Grammar.creation ts xs rest) (hts : Lined text lo ts hi) :
    ∃ lead between middle body word type list, Creates text xs lead between middle body word type list ∧
      (∀ x ∈ lead, x.isComment = true) ∧ word.isComment = false := by
  cases h with
  | seq h₁ h₂ =>
    obtain ⟨_, _, hlined⟩ := h₁.laid hts
    cases h₁ with
    | @token _ _ t _ haccept =>
      cases h₂ with
      | @seq _ _ _ _ _ params _ h₂ h₃ =>
        obtain ⟨_, _, hlined₃⟩ := h₂.laid hlined
        cases h₃ with
        | @seq _ _ _ _ _ marks _ h₃ h₄ =>
          obtain ⟨_, _, hlined₄⟩ := h₃.laid hlined₃
          cases h₄ with
          | seq h₄ h₅ =>
            obtain ⟨_, _, hlined₅⟩ := h₄.laid hlined₄
            cases h₅ with
            | @seq _ _ _ _ _ _ body h₅ h₆ =>
              obtain ⟨_, _, hlined₆⟩ := h₅.laid hlined₅
              obtain ⟨lead, type, rfl, hlead, htype⟩ := type_single h₄ hlined₄
              obtain ⟨middle, list, rfl, hlist, hends⟩ := arguments_list h₅ hlined₅
              have hnew : t.text.toList = "new".toList := by rw [Rule.word_text haccept]
              refine ⟨t.comments, params ++ (marks ++ lead), middle, body, .leaf .token t.span, type, list,
                ⟨by simp, hts.2.2.1.spelled hnew rfl, ?_, htype, hlist, ?_⟩, hts.2.1.isComment, rfl⟩
              · refine List.forall_mem_cons.mpr ⟨rfl, List.forall_mem_append.mpr ⟨typeArguments_plain h₂ hlined, ?_⟩⟩
                exact List.forall_mem_append.mpr ⟨annotations_plain h₃ hlined₃, hlead⟩
              · rcases anonymousBody_ends h₆ hlined₆ with rfl | ⟨front, last, rfl, hlast⟩
                · exact ⟨[], list, ")", rfl, hends, .inl rfl⟩
                · exact ⟨list :: front, last, "\x7d", rfl, hlast, .inr rfl⟩

theorem Node.Origin.creates (h : n.Origin text) (hkind : n.kind = .objectCreation) :
    ∃ front between middle body word type list, Creates text n.children front between middle body word type list := by
  induction h with
  | leaf _ kind =>
    rw [hkind] at kind
    cases kind
  | closed known _ stream inner children =>
    obtain ⟨lo, hi, hlined⟩ := stream.lined
    rcases known.2.1 hkind with rfl | rfl
    · obtain ⟨lead, between, middle, body, word, type, list, hparts, hlead, hword⟩ := inner.creation hlined
      refine ⟨[], between, middle, body, word, type, list, { hparts with row_eq := ?_ }⟩
      rw [children, hparts.row_eq, List.append_assoc, List.append_assoc, List.append_assoc, List.cons_append,
        dropWhile_comments hlead hword]
      simp
    · cases inner with
      | seq h₁ h₂ =>
        obtain ⟨_, _, hmid⟩ := h₁.laid hlined
        obtain ⟨lead, between, middle, body, word, type, list, hparts, -, -⟩ := h₂.creation hmid
        cases h₁ with
        | @token _ _ t _ _ =>
          refine ⟨.leaf .token t.span :: lead, between, middle, body, word, type, list, { hparts with row_eq := ?_ }⟩
          rw [children, List.append_assoc, List.singleton_append, dropWhile_comments hlined.2.1.isComment rfl,
            hparts.row_eq]
          simp
  | @grown _ _ left' _ _ _ _ _ _ _ ys _ _ _ _ _ _ _ _ kind _ children ih =>
    obtain ⟨front, between, middle, body, word, type, list, hparts⟩ := ih (kind.trans hkind)
    refine ⟨left' :: ys.takeWhile Node.isComment ++ front, between, middle, body, word, type, list,
      { hparts with row_eq := ?_ }⟩
    rw [children, hparts.row_eq]
    simp

theorem Node.Origin.literal (h : n.Origin text) (hkind : n.kind = .classLiteral) : n.EndsWith text "class" := by
  induction h with
  | leaf _ kind =>
    rw [hkind] at kind
    cases kind
  | closed known _ stream inner children =>
    obtain ⟨lo, hi, hlined⟩ := stream.lined
    obtain ⟨t, nodes, rfl, ht, hat⟩ := inner.ends (known.2.2.1 hkind) hlined
    exact ⟨nodes.dropWhile Node.isComment, t, children.trans (dropWhile_ends t.span), ht, hat⟩
  | @grown _ _ left' _ _ _ _ _ _ _ ys _ _ _ _ _ _ _ _ kind _ children ih =>
    obtain ⟨front, t, hfront, ht, hat⟩ := ih (kind.trans hkind)
    exact ⟨left' :: ys.takeWhile Node.isComment ++ front, t, by rw [children, hfront]; simp, ht, hat⟩

namespace Creates

variable {front between middle body : List Node} {word type list : Node}

theorem child_type (h : Creates text n.children front between middle body word type list) :
    n.child? .type = some type ∨ ∃ x ∈ front, n.child? .type = some x := by
  have hplain : (word :: between).find? (·.role == some .type) = none := by
    refine List.find?_eq_none.mpr fun x hx => ?_
    simp [h.plain x hx]
  rw [Node.child?, h.row_eq, List.append_assoc, List.append_assoc, List.find?_append, List.find?_append, hplain,
    List.cons_append, List.find?_cons_of_pos (by simp [h.typed])]
  cases hfront : front.find? (·.role == some .type) with
  | none => exact .inl rfl
  | some x => exact .inr ⟨x, List.mem_of_find?_eq_some hfront, rfl⟩

theorem isBare_iff (h : Creates text n.children front between middle body word type list) :
    n.isBare = true ↔
      (front = [] ∧ between = [] ∧ middle = [] ∧ body = []) ∧ list.children.length = 2 := by
  constructor
  · intro hbare
    have hlength : n.children.length = 3 := by
      unfold Node.isBare at hbare
      split at hbare
      · next heq => rw [heq]; rfl
      · cases hbare
    rw [h.row_eq] at hlength
    simp only [List.length_append, List.length_cons] at hlength
    have hnil : front = [] ∧ between = [] ∧ middle = [] ∧ body = [] := by
      simp only [← List.length_eq_zero_iff]
      omega
    obtain ⟨rfl, rfl, rfl, rfl⟩ := hnil
    rw [Node.isBare, h.row_eq] at hbare
    exact ⟨⟨rfl, rfl, rfl, rfl⟩, by simpa using hbare⟩
  · rintro ⟨⟨rfl, rfl, rfl, rfl⟩, hlength⟩
    rw [Node.isBare, h.row_eq]
    simpa using hlength

end Creates

theorem length_le_spelled {ns : List Node} (h : ∀ m ∈ ns, spelled text m.span ≠ []) :
    ns.length ≤ (ns.map fun m => spelled text m.span).flatten.length := by
  induction ns with
  | nil => exact Nat.le_refl 0
  | cons m ms ih =>
    obtain ⟨hm, hms⟩ := List.forall_mem_cons.mp h
    have hpos := List.length_pos_iff.mpr hm
    have hrest := ih hms
    simp only [List.length_cons, List.map_cons, List.flatten_cons, List.length_append]
    omega

theorem Node.Packed.ends {m : Node} {front : List Node} (h : n.Packed text) (hchildren : n.children = front ++ [m]) :
    ∃ lead, (slice text n.span).toList = lead ++ (slice text m.span).toList := by
  have hrow := h (by simp [hchildren])
  rw [hchildren] at hrow
  obtain ⟨mid, hfront, hgap, hink, hstop⟩ := spread_append.mp hrow
  have hstart : isBoundary text n.span.start = true := by
    cases front with
    | nil =>
      obtain rfl := hfront
      exact hgap.cuts.1
    | cons m ms => exact hfront.1.cuts.1
  have hsplit := slice_append hstart hink.cuts.1 hink.cuts.2 (Nat.le_trans hfront.le hgap.le) hink.le
  refine ⟨(slice text ⟨n.span.start, m.span.start⟩).toList, ?_⟩
  rw [← hsplit, show m.span.stop = n.span.stop from hstop]

theorem Node.EndsWith.slice {word : String} (h : n.EndsWith text word) (hpacked : n.Packed text) :
    ∃ lead, (slice text n.span).toList = lead ++ word.toList := by
  obtain ⟨front, t, hchildren, rfl, before, after, rfl, hspan⟩ := h
  obtain ⟨lead, hlead⟩ := hpacked.ends hchildren
  refine ⟨lead, hlead.trans ?_⟩
  rw [show (Node.leaf .token t.span).span = t.span from rfl, hspan, slice_middle, String.toList_ofList]

theorem ends_creation (hpacked : n.All (Node.Packed text)) (horigin : n.Origin text)
    (hkind : n.kind = .objectCreation) :
    ∃ lead bracket, (slice text n.span).toList = lead ++ [bracket] ∧ (bracket = ')' ∨ bracket = '\x7d') := by
  obtain ⟨front, between, middle, body, word, type, list, hparts⟩ := horigin.creates hkind
  obtain ⟨before, last, bracket, hlast, hends, hbracket⟩ := hparts.closed
  have hchildren : n.children = (front ++ word :: between ++ type :: middle ++ before) ++ [last] := by
    rw [hparts.row_eq, hlast, List.append_assoc _ before]
  obtain ⟨lead, hlead⟩ := hpacked.self.ends hchildren
  obtain ⟨lead', hlead'⟩ := hends.slice (hpacked.child (by simp [hchildren])).self
  rw [hlead', ← List.append_assoc] at hlead
  rcases hbracket with rfl | rfl
  · exact ⟨_, ')', hlead, .inl rfl⟩
  · exact ⟨_, '\x7d', hlead, .inr rfl⟩

variable (hpacked : n.All (Node.Packed text)) (horigin : n.All (Node.Origin text))
  (hformed : n.All (Node.Formed text)) (hcut : isBoundary text n.span.start = true)
include hpacked horigin hformed hcut

theorem spelled_list (hkind : n.kind = .argumentList) :
    2 ≤ (spelled text n.span).length ∧ (n.children.length = 2 → spelled text n.span = "()".toList) ∧
      ((spelled text n.span).length = 2 → n.children.length = 2) := by
  obtain ⟨first, rows, hfirst, hopening, hrows⟩ := horigin.self.listing hformed.self hkind
  obtain ⟨between, last, rfl, hclosing⟩ := hrows.ends
  have hchildren : n.children = first :: between ++ [last] := hfirst
  have hopen := hopening.spelled rfl rfl
  have hclose := hclosing.spelled rfl rfl
  have hne : n.children ≠ [] := by simp [hchildren]
  have hspelled := hpacked.self.spelled hne hcut
  rw [hchildren, List.map_append, List.map_cons, List.flatten_append, List.flatten_cons, hopen] at hspelled
  simp only [List.map_cons, List.map_nil, List.flatten_singleton, hclose] at hspelled
  have hbetween := length_le_spelled fun m (hm : m ∈ between) =>
    ((hpacked.self hne).of_mem (by rw [hchildren]; simp [hm])).ne_nil
  rw [hspelled, hchildren]
  refine ⟨by simp, fun hlength => ?_, fun hlength => ?_⟩
  · obtain rfl : between = [] := List.eq_nil_of_length_eq_zero (by simpa using hlength)
    rfl
  · simp only [List.length_append, List.length_cons, List.length_nil] at hlength ⊢
    omega

/-- An expression that creates an object spells `new`, its type and two parentheses, and nothing more just if it is
bare. -/
theorem spelled_creation (hkind : n.kind = .objectCreation) :
    let type := ((n.child? .type).map fun type => spelled text type.span).getD []
    5 + type.length ≤ (spelled text n.span).length ∧
      (n.isBare = true → spelled text n.span = "new".toList ++ type ++ "()".toList) ∧
      ((spelled text n.span).length = 5 + type.length → n.isBare = true) := by
  obtain ⟨front, between, middle, body, word, type, list, hparts⟩ := horigin.self.creates hkind
  have hchildren := hparts.row_eq
  have hne : n.children ≠ [] := by simp [hchildren]
  have hrow := hpacked.self hne
  have hink : ∀ m ∈ n.children, spelled text m.span ≠ [] := fun m hm => (hrow.of_mem hm).ne_nil
  have hlist : list ∈ n.children := by simp [hchildren]
  obtain ⟨htwo, hempty, hshort⟩ := spelled_list (hpacked.child hlist) (horigin.child hlist) (hformed.child hlist)
    (hrow.of_mem hlist).cuts.1 hparts.listed
  have hspelled := hpacked.self.spelled hne hcut
  rw [hchildren] at hspelled hink
  simp only [List.map_append, List.map_cons, List.flatten_append, List.flatten_cons, hparts.spells] at hspelled
  have hlength := congrArg List.length hspelled
  have hnew : "new".toList.length = 3 := rfl
  simp only [List.length_append, hnew] at hlength
  rw [hparts.isBare_iff]
  rcases hparts.child_type with htype | ⟨x, hx, htype⟩
  · rw [htype, Option.map_some, Option.getD_some]
    refine ⟨by omega, ?_, fun h => ?_⟩
    · rintro ⟨⟨rfl, rfl, rfl, rfl⟩, hbare⟩
      rw [hspelled, hempty hbare]
      simp
    · -- nothing is left for the other parts once the type and the parentheses are counted
      have hfront := length_le_spelled fun m (hm : m ∈ front) => hink m (by simp [hm])
      have hbetween := length_le_spelled fun m (hm : m ∈ between) => hink m (by simp [hm])
      have hmiddle := length_le_spelled fun m (hm : m ∈ middle) => hink m (by simp [hm])
      have hbody := length_le_spelled fun m (hm : m ∈ body) => hink m (by simp [hm])
      simp only [← List.length_eq_zero_iff]
      exact ⟨by omega, hshort (by omega)⟩
  · -- the outer object has the role of a type, and the type itself is left over
    rw [htype, Option.map_some, Option.getD_some]
    have hpos := List.length_pos_iff.mpr (hink type (by simp))
    obtain ⟨before, behind, rfl⟩ := List.append_of_mem hx
    simp only [List.map_append, List.map_cons, List.flatten_append, List.flatten_cons, List.length_append] at hlength
    refine ⟨by omega, ?_, fun h => by omega⟩
    rintro ⟨⟨hfront, -⟩, -⟩
    simp at hfront

end MockDialect.Java
