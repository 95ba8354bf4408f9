import MockDialect.Proofs.Settings.Builders
import MockDialect.Proofs.Source.Declared
import MockDialect.Proofs.Text.Trimming

namespace MockDialect.Settings

open Api Chain Conversion Java Source Text

variable {f : File} {a : Attributes}

/-- What stands behind the class in a creation call. -/
inductive Overload where
  | bare
  | name (text : String)
  | answer (text : String)
  | settings (calls : List BuilderCall)
  deriving DecidableEq

def Overload.spell : Overload → String
  | bare => ""
  | name text | answer text => ", " ++ text
  | settings calls => ", " ++ ("Mockito.withSettings()" ++ String.join (calls.map fun b =>
      "." ++ b.method ++ "(" ++ ", ".intercalate b.argTexts ++ ")"))

namespace Attributes

/-- What stands behind the class in the shortest call. -/
def overload (a : Attributes) : Overload :=
  if a.isDefault then .bare
  else if a == { name := a.name } then .name (a.name.getD "")
  else if a == { answer := a.answer } then .answer (a.answer.getD "")
  else .settings a.toBuilderCalls

theorem overloadText_eq (a : Attributes) : a.overloadText = a.overload.spell := by
  have hcalls : a.toBuilderCalls.map (·.spell) = a.toBuilderCalls.map fun b =>
      "." ++ b.method ++ "(" ++ ", ".intercalate b.argTexts ++ ")" :=
    List.map_congr_left fun b _ => by rw [BuilderCall.spell, BuilderCall.arguments_eq]
  unfold overloadText overload settingsText
  rw [hcalls, apply_ite Overload.spell, apply_ite Overload.spell, apply_ite Overload.spell]
  rfl

theorem overload_cases (a : Attributes) :
    a = {} ∧ a.overload = .bare ∨
    (∃ text, a = { name := some text } ∧ a.overload = .name text) ∨
    (∃ text, a = { answer := some text } ∧ a.overload = .answer text) ∨
    a.overload = .settings a.toBuilderCalls := by
  unfold overload
  split
  case isTrue h => exact .inl ⟨eq_of_beq h, rfl⟩
  case isFalse hdefault =>
    refine .inr ?_
    split
    case isTrue h =>
      have ha := eq_of_beq h
      cases hname : a.name with
      | none => exact absurd (beq_iff_eq.mpr (ha.trans (by rw [hname]))) hdefault
      | some text => exact .inl ⟨text, ha.trans (by rw [hname]), rfl⟩
    case isFalse =>
      refine .inr ?_
      split
      case isTrue h =>
        have ha := eq_of_beq h
        cases hanswer : a.answer with
        | none => exact absurd (beq_iff_eq.mpr (ha.trans (by rw [hanswer]))) hdefault
        | some text => exact .inl ⟨text, ha.trans (by rw [hanswer]), rfl⟩
      case isFalse => exact .inr rfl

end Attributes

def isReference (n : Node) : Bool := n.kind == .identifier || n.kind == .fieldAccess

theorem typeOf_reference {n : Node} (hreference : isReference n = true) (h : ∀ v ∈ f.declared, v.apiType = none) :
    f.names.typeOf n = none := by
  obtain ⟨kind, role, span, children⟩ := n
  have hkind : kind = .identifier ∨ kind = .fieldAccess := by simpa [isReference, Node.kind] using hreference
  rcases hkind with rfl | rfl
  · rw [Names.typeOf]
    cases hv : Variable.lookup? f.names.declared (slice f.names.text span) span.start with
    | none => rfl
    | some v => exact h v (Variable.mem_of_lookup? hv)
  · rw [Names.typeOf, Names.ownFieldType?]
    split
    · split
      · cases hv : Variable.field? f.names.declared _ with
        | none => rfl
        | some v => exact h v (List.mem_of_find?_eq_some hv)
      · rfl
    · rfl

theorem ofSecondArgument_stringLiteral {v : Node} (hkind : v.kind = .stringLiteral) :
    ofSecondArgument f (readArg f v) = .ok (.ofBuilderCalls [.name (f.spell v)]) := by
  have hcall : v.isCall = false := by
    rw [Node.isCall, hkind]
    rfl
  have harg : (readArg f v).kind = .stringLiteral := by rw [kind_readArg hcall, plainKind, hkind]
  rw [ofSecondArgument, harg, overloadSetting, Arg.isStringLiteral, harg, text_readArg]
  rfl

theorem ofSecondArgument_reference {v : Node} (hreference : isReference v = true)
    (h : ∀ x ∈ f.declared, x.declaredType = "Object" ∧ x.apiType = none) :
    ofSecondArgument f (readArg f v) = .ok (.ofBuilderCalls [.defaultAnswer (f.spell v)]) := by
  have hkind : v.kind = .identifier ∨ v.kind = .fieldAccess := by simpa [isReference] using hreference
  have hcall : v.isCall = false := by rcases hkind with hkind | hkind <;> simp [Node.isCall, hkind]
  have harg : (readArg f v).kind = .reference := by
    rcases hkind with hkind | hkind <;> rw [kind_readArg hcall, plainKind, hkind]
  have hstring : isStringVariable f (readArg f v) = false := by
    rw [isStringVariable, File.lookup?]
    cases hx : Variable.lookup? f.declared (withoutThis (readArg f v).text) (readArg f v).span.start with
    | none => exact Bool.and_false _
    | some x => simp [(h x (Variable.mem_of_lookup? hx)).1]
  rw [ofSecondArgument, harg, apiType_readArg, typeOf_reference hreference fun x hx => (h x hx).2]
  dsimp only
  rw [if_neg (by decide), overloadSetting, Arg.isStringLiteral, harg, hstring, text_readArg]
  rfl

theorem ofSecondArgument_other {v : Node} (hcall : v.isCall = false) (hstring : v.kind ≠ .stringLiteral)
    (hreference : isReference v = false) : ofSecondArgument f (readArg f v) ≠ .ok a := by
  simp only [isReference, Bool.or_eq_false_iff, beq_eq_false_iff_ne] at hreference
  have harg := kind_readArg (f := f) hcall
  unfold plainKind at harg
  split at harg
  case h_1 hkind => exact absurd hkind hreference.1
  case h_2 hkind => exact absurd hkind hreference.2
  case h_7 hkind => exact absurd hkind hstring
  all_goals
    rw [ofSecondArgument, harg]
    nofun

section

variable (hf : f.Sound) (hsolid : f.Solid)
  {n list v : Node} {above : List Node} (hin : Cursor.In f.tree ⟨n, above⟩) (hcall : n.isCall = true)
  (hlist : n.child? .arguments = some list) (hv : v ∈ list.codeChildren)

include hf hsolid hin hlist hv

theorem ofSecondArgument_call (hvcall : v.isCall = true) :
    ofSecondArgument f (readArg f v) = ofSettingsChain (chainOf f ⟨v, list :: n :: above⟩) := by
  have hvin := argument_in hin hlist hv
  obtain ⟨call, hread⟩ := exists_readCall?_of_in hf hvin hvcall
  have hfound := callWithSpan?_span hf hsolid hvin hvcall
  rw [Cursor.span] at hfound
  rw [ofSecondArgument, kind_readArg_call hread, span_readArg, hfound]

include hcall

theorem spell_not_given (hvcall : v.isCall = true) (h : ofSecondArgument f (readArg f v) = .ok a) :
    f.spell v ∉ a.name ∧ f.spell v ∉ a.answer := by
  have hvin := argument_in hin hlist hv
  have hlast : outermostCall ⟨v, list :: n :: above⟩ = ⟨v, list :: n :: above⟩ :=
    outermostCall_argument (kind_of_arguments hf hin.within hcall hlist)
  rw [ofSecondArgument_call hf hsolid hin hlist hv hvcall] at h
  obtain ⟨hname, hanswer, -⟩ := exists_args_of_ofSettingsChain h
  -- an argument is narrower than the chain around it, so it is spelled otherwise
  have hnarrower : ∀ call ∈ (chainOf f ⟨v, list :: n :: above⟩).calls, call.args.map (·.text) ≠ [f.spell v] := by
    intro call hcall htexts
    obtain ⟨arg, harg, htext⟩ := List.map_eq_singleton_iff.mp htexts
    have hmem : arg ∈ call.args := harg ▸ .head _
    obtain ⟨m, rfl, hm, hlt⟩ := narrower_of_mem_args hf hsolid hvin hvcall hcall hmem
    have hmPlaced := hm.placed hf.placed
    have hvPlaced := hvin.placed hf.placed
    have hwidth := width_slice hmPlaced.cuts.self hmPlaced.wellFormed.ordered
    rw [text_readArg] at htext
    rw [show slice f.text m.span = slice f.text v.span from htext,
      width_slice hvPlaced.cuts.self hvPlaced.wellFormed.ordered] at hwidth
    rw [hlast] at hlt
    exact Nat.ne_of_gt hlt hwidth
  refine ⟨fun hgiven => ?_, fun hgiven => ?_⟩
  · obtain ⟨call, hcall, htexts⟩ := hname _ hgiven
    exact hnarrower call hcall htexts
  · obtain ⟨call, hcall, htexts⟩ := hanswer _ hgiven
    exact hnarrower call hcall htexts

end

/-- Nodes behind the class that read what stands there. What a reference refers to is not in the call. -/
def Overload.ReadAt (f : File) : Overload → List Node → Prop
  | bare => fun rest => rest.map f.spell = []
  | name text | answer text => fun rest =>
    rest.map f.spell = [text] ∧ ∀ v ∈ rest, isReference v = true → ∀ x ∈ f.declared, x.declaredType = "Object"
  | settings calls => fun rest => rest.length = 1 ∧ ∀ v ∈ rest, SettingsAt f calls.reverse v

instance (f : File) : (o : Overload) → DecidablePred (o.ReadAt f)
  | .bare, rest => inferInstanceAs (Decidable (rest.map f.spell = []))
  | .name _, rest | .answer _, rest => inferInstanceAs (Decidable (rest.map f.spell = _ ∧ _))
  | .settings _, rest => inferInstanceAs (Decidable (rest.length = 1 ∧ _))

theorem Overload.ReadAt.cases {o : Overload} {rest : List Node} (h : o.ReadAt f rest) :
    o = .bare ∧ rest = [] ∨ ∃ v, rest = [v] := by
  cases o with
  | bare => exact .inl ⟨rfl, List.map_eq_nil_iff.mp h⟩
  | name text | answer text =>
    obtain ⟨v, hv, -⟩ := List.map_eq_singleton_iff.mp h.1
    exact .inr ⟨v, hv⟩
  | settings calls => exact .inr (List.length_eq_one_iff.mp h.1)

/-- An argument that is taken for what it is meant as. -/
def Overload.Tells : Overload → Node → Prop
  | name _ => fun v => v.kind = .stringLiteral
  | answer _ => fun v => isReference v = true
  | bare | settings _ => fun _ => True

/-- A node that reads a creation call: its class literal and what stands behind it. -/
structure CreationAt (f : File) (typeName : String) (o : Overload) (n literal : Node) (rest : List Node) : Prop where
  imports : ImportsLibrary f
  invokes : Invokes f "mock" (ClassAt f .mockito) (· = literal :: rest) n
  kind : literal.kind = .classLiteral
  spelled : f.spell literal = typeName ++ ".class"
  overload : o.ReadAt f rest

/-- A name without dots and blanks. -/
def isSimple (name : String) : Bool := name.toList.all fun c => !isBlank c && c != '.'

theorem classLiteralType_simple {name : String} (h : isSimple name = true) :
    classLiteralType (name ++ ".class") = name := by
  have hchars : ∀ c ∈ name.toList, isBlank c = false ∧ (c == '.') = false := by
    simpa [isSimple] using h
  have hclass : ".class".toList.all (!isBlank ·) = true := by decide +kernel
  have hliteral : ∀ c ∈ (name ++ ".class").toList, isBlank c = false := by
    rw [String.toList_append]
    exact List.forall_mem_append.mpr ⟨fun c hc => (hchars c hc).1, by simpa only [List.all_eq_true,
      Bool.not_eq_true'] using hclass⟩
  have htrim : trimChars (name ++ ".class").toList = name.toList ++ ".class".toList := by
    rw [trimChars, dropWhile_eq_self hliteral, dropBlankEnd_eq_self hliteral, String.toList_append]
  have hdrop : dropLead? "class".toList.reverse (name.toList ++ ".class".toList).reverse =
      some ('.' :: name.toList.reverse) := by
    rw [List.reverse_append]
    rfl
  have hdot : ('.' :: name.toList.reverse).dropWhile isBlank = '.' :: name.toList.reverse := rfl
  have hname : ('.' :: name.toList.reverse).dropWhile (· == '.') = name.toList.reverse := by
    rw [List.dropWhile_cons_of_pos rfl, dropWhile_eq_self fun c hc => (hchars c (List.mem_reverse.mp hc)).2]
  rw [classLiteralType, htrim, hdrop]
  dsimp only
  rw [hdot, hname, dropWhile_eq_self fun c hc => (hchars c (List.mem_reverse.mp hc)).1, List.reverse_reverse,
    String.ofList_toList]

theorem ofMockCall_of_creationAt {typeName : String} {o : Overload} {n literal : Node} {rest : List Node}
    (htype : isSimple typeName = true) (h : CreationAt f typeName o n literal rest) :
    (rest = [] → ofMockCall f n = .ok (typeName, {})) ∧
      ∀ v, rest = [v] → (ofMockCall f n = .ok (typeName, a) ↔ ofSecondArgument f (readArg f v) = .ok a) := by
  obtain ⟨call, object, list, hread, hname, hobject, hcls, -, hargs, hcallArgs⟩ := h.invokes.exists_readCall?
  have hreceiver : call.receiver = .entry .mockito := by
    rw [receiver_of_classAt h.imports hread hobject hcls, hname]
    rfl
  have hmocked : mockedType (readArg f literal) = .ok typeName := by
    have hcall : literal.isCall = false := by
      rw [Node.isCall, h.kind]
      rfl
    rw [mockedType, kind_readArg hcall, plainKind, h.kind, h.spelled]
    exact congrArg _ (classLiteralType_simple htype)
  have hentry : ¬ (call.name ≠ "mock" ∨ call.receiver ≠ .entry .mockito) := by simp [hname, hreceiver]
  rw [ofMockCall, hread]
  dsimp only
  rw [if_neg hentry, hcallArgs, hargs]
  refine ⟨?_, ?_⟩
  · rintro rfl
    simp only [List.map_cons, List.map_nil, hmocked]
    rfl
  · rintro v rfl
    simp only [List.map_cons, List.map_nil, hmocked]
    cases ofSecondArgument f (readArg f v) with
    | error e => exact ⟨fun h => (by cases h), fun h => (by cases h)⟩
    | ok b =>
      refine ⟨fun h => congrArg _ (Prod.mk.inj (Except.ok.inj h)).2, fun h => ?_⟩
      rw [Except.ok.inj h]
      rfl

section

variable {source : String} {n list v : Node} {above : List Node}
  (hin : Cursor.In (File.read source).tree ⟨n, above⟩) (hcall : n.isCall = true)
  (hlist : n.child? .arguments = some list) (hv : v ∈ list.codeChildren)

include hin hcall hlist hv

theorem kind_of_ofSecondArgument {text : String} (htext : (File.read source).spell v = text)
    (hobjects : isReference v = true → ∀ x ∈ (File.read source).declared, x.declaredType = "Object")
    (hgiven : text ∈ a.name ∨ text ∈ a.answer)
    (h : ofSecondArgument (File.read source) (readArg (File.read source) v) = .ok a) :
    v.kind = .stringLiteral ∧ a = .ofBuilderCalls [.name text] ∨
      isReference v = true ∧ a = .ofBuilderCalls [.defaultAnswer text] := by
  by_cases hvcall : v.isCall = true
  · obtain ⟨hname, hanswer⟩ := spell_not_given (File.read_sound source)
      (File.read_solid source) hin hcall hlist hv hvcall h
    rw [htext] at hname hanswer
    exact absurd hgiven (not_or.mpr ⟨hname, hanswer⟩)
  by_cases hstring : v.kind = .stringLiteral
  · rw [ofSecondArgument_stringLiteral hstring, htext] at h
    exact .inl ⟨hstring, (Except.ok.inj h).symm⟩
  by_cases hreference : isReference v = true
  · rw [ofSecondArgument_reference hreference (apiType_of_object source (hobjects hreference)), htext] at h
    exact .inr ⟨hreference, (Except.ok.inj h).symm⟩
  exact absurd h (ofSecondArgument_other (Bool.eq_false_iff.mpr hvcall) hstring (Bool.eq_false_iff.mpr hreference))

theorem ofSecondArgument_overload (himports : ImportsLibrary (File.read source)) (ha : a.Normal)
    (hread : a.overload.ReadAt (File.read source) [v]) :
    ofSecondArgument (File.read source) (readArg (File.read source) v) = .ok a ↔ a.overload.Tells v := by
  have hf := File.read_sound source
  -- settings that are a name or an answer only are written as one call, which is what the argument is read as
  have hback := Attributes.ofBuilderCalls_toBuilderCalls_eq_iff.mpr ha
  rcases a.overload_cases with ⟨-, ho⟩ | ⟨text, rfl, ho⟩ | ⟨text, rfl, ho⟩ | ho <;> rw [ho] at hread ⊢
  · cases hread
  · have htext := List.singleton_inj.mp hread.1
    refine ⟨fun h => ?_, fun hkind => ?_⟩
    · rcases kind_of_ofSecondArgument hin hcall hlist hv htext (hread.2 v (.head _)) (.inl rfl) h with h | ⟨-, hanswer⟩
      · exact h.1
      · cases congrArg Attributes.name hanswer
    · rw [ofSecondArgument_stringLiteral hkind, htext]
      exact congrArg Except.ok hback
  · have htext := List.singleton_inj.mp hread.1
    refine ⟨fun h => ?_, fun hreference => ?_⟩
    · rcases kind_of_ofSecondArgument hin hcall hlist hv htext (hread.2 v (.head _)) (.inr rfl) h with ⟨-, hname⟩ | h
      · cases congrArg Attributes.answer hname
      · exact h.1
    · rw [ofSecondArgument_reference hreference (apiType_of_object source (hread.2 v (.head _) hreference)), htext]
      exact congrArg Except.ok hback
  · have hsettings := hread.2 v (.head _)
    refine ⟨fun _ => trivial, fun _ => ?_⟩
    rw [ofSecondArgument_call hf (File.read_solid source) hin hlist hv hsettings.isCall,
      ofSettingsChain_of_settingsAt hf himports (argument_in hin hlist hv)
        (outermostCall_argument (kind_of_arguments hf hin.within hcall hlist)) hsettings a.extraInterfaces_not_mem,
      hback]

end

/-- The file in which a text is read as an expression. -/
def expressionFile (snippet : String) : File :=
  File.read (snippetImports ++ "class Snippet \x7b\n    Object value = " ++ snippet ++ ";\n\x7d\n")

def expression? (f : File) : Option Node :=
  (f.cursors.find? (·.kind == .variableDeclarator)).bind (·.node.child? .value)

theorem expression?_in {n : Node} (h : expression? f = some n) : ∃ above, Cursor.In f.tree ⟨n, above⟩ := by
  obtain ⟨c, hc, hvalue⟩ := Option.bind_eq_some_iff.mp h
  exact ⟨_, .down (Cursor.in_of_mem_all (List.mem_of_find?_eq_some hc)) (Node.mem_children_of_child? hvalue)⟩

theorem parseMockCall_eq {snippet : String} {n : Node} (h : expression? (expressionFile snippet) = some n)
    (hcall : n.isCall = true) : parseMockCall snippet = ofMockCall (expressionFile snippet) n := by
  unfold expression? expressionFile at h
  unfold parseMockCall expressionFile
  dsimp only
  split
  case h_1 value hvalue =>
    obtain rfl := Option.some.inj (hvalue.symm.trans h)
    rw [if_pos hcall]
  case h_2 hvalue => cases hvalue.symm.trans h

theorem normal_parseAnnotationText {snippet : String} (h : parseAnnotationText snippet = .ok a) : a.Normal := by
  unfold parseAnnotationText at h
  dsimp only at h
  split at h
  · cases h
  · split at h
    · exact (Attributes.annotated_ofAnnotationNode h).normal
    · cases h

/-- The shortest creation call for the settings of an annotation gives them back just if a name that stands in it on
its own is a string literal, and an answer that does is a reference. -/
theorem creation_text_read_back_iff (snippet typeName : String) (a : Attributes)
    (ha : parseAnnotationText snippet = .ok a) (htype : isSimple typeName = true) :
    let text := a.creationText typeName
    text = "Mockito.mock(" ++ typeName ++ ".class" ++ a.overload.spell ++ ")" ∧
    ∀ n literal rest, expression? (expressionFile text) = some n →
      CreationAt (expressionFile text) typeName a.overload n literal rest →
      (parseMockCall text = .ok (typeName, a) ↔ ∀ v ∈ rest, a.overload.Tells v) := by
  intro text
  refine ⟨by rw [← Attributes.overloadText_eq]; rfl, fun n literal rest hn h => ?_⟩
  have hnormal := normal_parseAnnotationText ha
  obtain ⟨above, hin⟩ := expression?_in hn
  obtain ⟨hcall, -, -, list, hlist, hargs⟩ := h.invokes
  obtain ⟨hbare, hsecond⟩ := ofMockCall_of_creationAt (a := a) htype h
  rw [parseMockCall_eq hn hcall]
  rcases h.overload.cases with ⟨ho, rfl⟩ | ⟨v, rfl⟩
  · have hdefault : a = {} := by
      rcases a.overload_cases with ⟨hdefault, -⟩ | ⟨_, -, ho'⟩ | ⟨_, -, ho'⟩ | ho'
      · exact hdefault
      all_goals cases ho.symm.trans ho'
    rw [hbare rfl, hdefault]
    exact ⟨fun _ => nofun, fun _ => rfl⟩
  · rw [hsecond v rfl, List.forall_mem_singleton]
    exact ofSecondArgument_overload hin hcall hlist (hargs ▸ .tail _ (.head _)) h.imports hnormal h.overload

theorem creation_text_read_back_iff_settings :
    let text := "Mockito.mock(T.class, Mockito.withSettings().name(N).stubOnly())"
    ∃ a n literal rest, parseAnnotationText "@Mock(stubOnly = true, name = N)" = .ok a ∧ a.creationText "T" = text ∧
      expression? (expressionFile text) = some n ∧
      CreationAt (expressionFile text) "T" a.overload n literal rest ∧ parseMockCall text = .ok ("T", a) := by
  intro text
  let g := expressionFile text
  have hcomputed : (parseAnnotationText "@Mock(stubOnly = true, name = N)").toOption.any (fun a =>
      a.creationText "T" == text && (expression? g).any fun n =>
        decide (ImportsLibrary g ∧ Invokes g "mock" (ClassAt g .mockito) (fun _ => True) n) &&
        (n.child? .arguments).any fun list => list.codeChildren.head?.any fun literal =>
          decide (literal.kind = .classLiteral ∧ g.spell literal = "T.class" ∧ a.overload = .settings a.toBuilderCalls ∧
            a.overload.ReadAt g list.codeChildren.tail)) = true := by
    decide +kernel
  obtain ⟨a, ha, hcomputed⟩ := (Option.any_eq_true _ _).mp hcomputed
  rw [Bool.and_eq_true, beq_iff_eq] at hcomputed
  obtain ⟨htext, hcomputed⟩ := hcomputed
  obtain ⟨n, hn, hcomputed⟩ := (Option.any_eq_true _ _).mp hcomputed
  rw [Bool.and_eq_true, decide_eq_true_eq] at hcomputed
  obtain ⟨⟨himports, hcall, hname, hobject, -⟩, hcomputed⟩ := hcomputed
  obtain ⟨list, hlist, hcomputed⟩ := (Option.any_eq_true _ _).mp hcomputed
  obtain ⟨literal, hliteral, hcomputed⟩ := (Option.any_eq_true _ _).mp hcomputed
  obtain ⟨hkind, hspell, hsettings, hread⟩ := decide_eq_true_eq.mp hcomputed
  obtain ⟨rest, hargs⟩ := List.head?_eq_some_iff.mp hliteral
  rw [hargs] at hread
  have hreads : CreationAt g "T" a.overload n literal rest :=
    ⟨himports, ⟨hcall, hname, hobject, list, hlist, hargs⟩, hkind, hspell, hread⟩
  have hannotation := eq_ok_of_toOption ha
  have hback := (creation_text_read_back_iff _ "T" a hannotation (by decide)).2 n literal rest
  rw [htext] at hback
  refine ⟨a, n, literal, rest, hannotation, htext, hn, hreads, (hback hn hreads).mpr ?_⟩
  rw [hsettings]
  exact fun _ _ => trivial

/-- A constant that is a name on its own is read back as an answer. -/
theorem name_constant_read_as_answer :
    ∃ a, parseAnnotationText "@Mock(name = NAME)" = .ok a ∧ a.name = some "NAME" ∧
      a.creationText "T" = "Mockito.mock(T.class, NAME)" ∧
      parseMockCall (a.creationText "T") = .ok ("T", { answer := some "NAME" }) := by
  have hcomputed : (parseAnnotationText "@Mock(name = NAME)").toOption.any (fun a =>
      a.name == some "NAME" && a.creationText "T" == "Mockito.mock(T.class, NAME)" &&
        (parseMockCall (a.creationText "T")).toOption == some ("T", { answer := some "NAME" })) = true := by
    decide +kernel
  obtain ⟨a, ha, hcomputed⟩ := (Option.any_eq_true _ _).mp hcomputed
  simp only [Bool.and_eq_true, beq_iff_eq] at hcomputed
  obtain ⟨⟨hname, htext⟩, hback⟩ := hcomputed
  exact ⟨a, eq_ok_of_toOption ha, hname, htext, eq_ok_of_toOption hback⟩

end MockDialect.Settings
