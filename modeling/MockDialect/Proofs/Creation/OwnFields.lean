import MockDialect.Creation.Expand
import MockDialect.Proofs.Chain.Arguments
import MockDialect.Proofs.Source.Scopes
import Mathlib.Data.List.Nodup

namespace MockDialect.Source

open Java Text

def fieldScope? (c d : Cursor) : Option Span :=
  match d.kind with
  | .classBody | .enumBodyDeclarations => some d.span
  | .enumBody =>
    (d.node.children.find? fun m => m.kind == .enumBodyDeclarations && c.span.stop ≤ m.span.start).map (·.span)
  | _ => none

/-- The field with a name in the innermost class around a place that declares one. -/
def ownField? (f : File) (c : Cursor) (name : String) : Option Variable :=
  (Cursor.outward c.node c.above).findSome? fun d => (fieldScope? c d).bind fun scope =>
    f.declared.find? fun v => v.kind == .field && v.name == name && v.scope == scope

theorem split_of_ownField? {f : File} {c : Cursor} {name : String} {v : Variable} (h : v ∈ ownField? f c name) :
    v.kind = .field ∧ v.name = name ∧ (∃ d ∈ Cursor.outward c.node c.above, fieldScope? c d = some v.scope) ∧
      ∃ front back, f.declared = front ++ v :: back ∧
        ∀ w ∈ front, w.kind = .field → w.name = name → w.scope ≠ v.scope := by
  obtain ⟨d, hd, hfound⟩ := List.exists_of_findSome?_eq_some h
  obtain ⟨scope, hscope, hfound⟩ := Option.bind_eq_some_iff.mp hfound
  obtain ⟨hv, front, back, hsplit, hfront⟩ := List.find?_eq_some_iff_append.mp hfound
  simp only [Bool.and_eq_true, beq_iff_eq] at hv
  obtain ⟨⟨hkind, hname⟩, rfl⟩ := hv
  refine ⟨hkind, hname, ⟨d, hd, hscope⟩, front, back, hsplit, fun w hw hwkind hwname hwscope => ?_⟩
  simpa [hwkind, hwname, hwscope] using hfront w hw

theorem mem_of_ownField? {f : File} {c : Cursor} {name : String} {v : Variable} (h : v ∈ ownField? f c name) :
    v ∈ f.declared := by
  obtain ⟨-, -, -, front, back, hsplit, -⟩ := split_of_ownField? h
  rw [hsplit]
  exact List.mem_append_right front (.head back)

variable {source : String} {c d : Cursor} {name reference : String} {v : Variable}

theorem within_body (hc : Cursor.In (File.read source).tree c) (hkind : c.kind = .fieldAccess)
    (hd : d ∈ Cursor.outward c.node c.above) (hbody : d.kind = .classBody ∨ d.kind = .enumBodyDeclarations) :
    d.span.start < c.span.start ∧ c.span.start < d.span.stop := by
  have hf := File.read_sound source
  have hne : d ≠ c := by
    rintro rfl
    rcases hbody with hbody | hbody <;> cases hkind.symm.trans hbody
  obtain ⟨k, hk, -, hwithin⟩ := (Cursor.cases_of_mem_outward hc hd).resolve_left hne
  have hdin : Cursor.In (File.read source).tree d := hc.outward d hd
  have hdkind : d.kind ≠ .program := by rcases hbody with hbody | hbody <;> rw [hbody] <;> nofun
  have hckind : c.kind ≠ .program := by rw [hkind]; nofun
  obtain ⟨first, rest, hchildren, htoken⟩ : ∃ first rest, d.node.children = first :: rest ∧ first.kind = .token := by
    rcases hbody with hbody | hbody
    · have hbraced : d.node.kind.isBraced = true := by rw [show d.node.kind = .classBody from hbody]; rfl
      obtain ⟨-, first, rest, hchildren, htoken, -⟩ := (hdin.all hf.formed).self.braced hbraced
      exact ⟨first, rest, hchildren, htoken⟩
    · exact (File.read_origin source hdin hdkind).self.begins_declarations hbody
  have hplaced := hdin.placed hf.placed
  have hfirst : first ∈ d.node.children := by rw [hchildren]; exact .head rest
  have hsolid := ((File.read_solid source hdin hdkind).child hfirst).self.nonempty
  have hnonempty := (File.read_solid source hc hckind).self.nonempty
  have hlaid := hplaced.laid
  have hkin := hlaid.of_mem hk
  have hinside := hwithin.inside hkin.2.2
  -- the access is no token, so it is below one of the children behind the first
  have hbehind : k ∈ rest := by
    rw [hchildren] at hk
    rcases List.mem_cons.mp hk with rfl | hk
    · have hck := hwithin.eq_of_token ((hdin.all hf.formed).child hfirst).self.regular htoken
      rw [Cursor.kind, hck, htoken] at hkind
      cases hkind
    · exact hk
  rw [hchildren] at hlaid
  have hrest := hlaid.2.2.of_mem hbehind
  have hstart := hlaid.1
  simp only [Cursor.span]
  omega

theorem within_own_scope (hc : Cursor.In (File.read source).tree c) (hkind : c.kind = .fieldAccess)
    (hv : v ∈ ownField? (File.read source) c name) (hstart : v.scope.start ≤ c.span.start) :
    v.scope.start < c.span.start ∧ c.span.start < v.scope.stop := by
  obtain ⟨-, -, ⟨d, hd, hscope⟩, -⟩ := split_of_ownField? hv
  unfold fieldScope? at hscope
  split at hscope
  case h_1 hbody =>
    rw [← Option.some.inj hscope]
    exact within_body hc hkind hd (.inl hbody)
  case h_2 hbody =>
    rw [← Option.some.inj hscope]
    exact within_body hc hkind hd (.inr hbody)
  case h_3 =>
    obtain ⟨m, hm, hspan⟩ := Option.map_eq_some_iff.mp hscope
    have hbehind := List.find?_some hm
    rw [Bool.and_eq_true, decide_eq_true_eq, hspan] at hbehind
    have hnonempty := (File.read_solid source hc (by rw [hkind]; nofun)).self.nonempty
    have hlt : c.span.start < c.span.stop := hnonempty
    omega
  case h_4 => cases hscope

theorem lookup?_eq_ownField?_iff (hc : Cursor.In (File.read source).tree c) (hkind : c.kind = .fieldAccess) :
    (File.read source).lookup? reference c.span.start = ownField? (File.read source) c name ↔
      (∀ v ∈ ownField? (File.read source) c name, v.CountsAt reference c.span.start) ∧
      ∀ w ∈ (File.read source).declared, w.CountsAt reference c.span.start →
        ∃ v ∈ ownField? (File.read source) c name, w.scope.contains v.scope = true := by
  cases hown : ownField? (File.read source) c name with
  | none =>
    rw [File.lookup?, Variable.lookup?_eq_none_iff]
    constructor
    · intro h
      exact ⟨fun v hv => absurd hv (Option.not_mem_none v), fun w hw hcounts => absurd hcounts (h w hw)⟩
    · intro h w hw hcounts
      obtain ⟨v, hv, -⟩ := h.2 w hw hcounts
      exact Option.not_mem_none v hv
  | some v =>
    obtain ⟨hfield, hname, -, front, back, hsplit, hfront⟩ := split_of_ownField? hown
    have hv := mem_of_ownField? hown
    constructor
    · intro hlookup
      obtain ⟨-, hcounts, hleast⟩ := Variable.least_of_lookup? hlookup
      have hinside := within_own_scope hc hkind hown hcounts.2.1
      refine ⟨fun w hw => Option.some.inj hw ▸ hcounts, fun w hw hwcounts => ⟨v, rfl, ?_⟩⟩
      have hle := hleast w hw hwcounts
      obtain ⟨-, hwstart, hwstop, -⟩ := hwcounts
      rcases scope_cases hv hw with ⟨hsame, -⟩ | ⟨-, hlt⟩ | ⟨hcontains, -⟩ | hapart
      · rw [hsame]
        exact Span.contains_refl _
      · omega
      · exact hcontains
      · omega
    · rintro ⟨hcounts, hwider⟩
      have hvcounts := hcounts v rfl
      -- a declaration that counts is wider than the field, or has its scope and is then a field behind it
      have hlength : ∀ w ∈ (File.read source).declared, w.CountsAt reference c.span.start →
          v.scope.length < w.scope.length ∨ w.scope = v.scope ∧ w.kind = .field := by
        intro w hw hwcounts
        obtain ⟨u, hu, hcontains⟩ := hwider w hw hwcounts
        obtain rfl := Option.some.inj hu
        have hinside := within_own_scope hc hkind hown hvcounts.2.1
        have hbounds := Span.contains_iff.mp hcontains
        rcases scope_cases hv hw with ⟨hsame, hboth⟩ | ⟨-, hlt⟩ | ⟨-, hlt⟩ | hapart
        · exact .inr ⟨hsame.symm, hboth hfield⟩
        · simp only [Span.length] at hlt
          omega
        · exact .inl hlt
        · omega
      refine Variable.lookup?_eq_some_iff.mpr ⟨front, back, hsplit, hvcounts, ?_, ?_⟩
      · intro w hw hwcounts
        refine (hlength w (hsplit ▸ List.mem_append_left _ hw) hwcounts).resolve_right ?_
        rintro ⟨hscope, hwfield⟩
        exact hfront w hw hwfield (hwcounts.1.trans (hvcounts.1.symm.trans hname)) hscope
      · intro w hw hwcounts
        rcases hlength w (hsplit ▸ List.mem_append_right front (.tail v hw)) hwcounts with hlt | ⟨hscope, -⟩
        · exact hlt.le
        · rw [hscope]

theorem Variable.mem_of_field? {declared : List Variable} (h : v ∈ field? declared name) : v ∈ declared :=
  List.mem_of_find?_eq_some h

theorem field?_eq_ownField?_iff {f : File} :
    Variable.field? f.declared name = ownField? f c name ↔
      ∀ front w back, f.declared = front ++ w :: back → w.kind = .field → w.name = name →
        ∃ v ∈ ownField? f c name, v ∈ front ++ [w] := by
  constructor
  · intro h front w back hsplit hfield hname
    have hfirst : Variable.field? f.declared name =
        (front.find? fun v => v.kind == .field && v.name == name).or (some w) := by
      rw [Variable.field?, hsplit, List.find?_append, List.find?_cons_of_pos (by simp [hfield, hname])]
    rw [← h, hfirst]
    cases hfound : front.find? fun v => v.kind == .field && v.name == name with
    | none => exact ⟨w, rfl, by simp⟩
    | some v => exact ⟨v, rfl, List.mem_append_left _ (List.mem_of_find?_eq_some hfound)⟩
  · intro h
    cases hfound : Variable.field? f.declared name with
    | none =>
      cases hown : ownField? f c name with
      | none => rfl
      | some v =>
        obtain ⟨hfield, hname, -⟩ := split_of_ownField? hown
        simpa [hfield, hname] using List.find?_eq_none.mp hfound v (mem_of_ownField? hown)
    | some w =>
      obtain ⟨hw, front, back, hsplit, hfront⟩ := List.find?_eq_some_iff_append.mp hfound
      rw [Bool.and_eq_true, beq_iff_eq, beq_iff_eq] at hw
      obtain ⟨v, hv, hmem⟩ := h front w back hsplit hw.1 hw.2
      obtain ⟨hfield, hname, -⟩ := split_of_ownField? hv
      rcases List.mem_append.mp hmem with hmem | hmem
      · simpa [hfield, hname] using hfront v hmem
      · rw [List.mem_singleton.mp hmem] at hv
        exact hv.symm

end MockDialect.Source

namespace MockDialect.Creation

open Chain Java Settings Source Text

/-- A place that reads `this.name`. -/
structure OwnAccess (f : File) (c : Cursor) (name : String) : Prop where
  place : Cursor.In f.tree c
  kind : c.kind = .fieldAccess
  object : (c.node.child? .object).map (·.kind) = some .thisExpression
  field : (c.node.child? .field).map f.spell = some name

/-- What is read of a reference that stands for a variable, or for none. -/
structure StandsFor (f : File) (c : Cursor) (v : Option Variable) : Prop where
  mockedClass : f.mockedClass? (f.spell c.node) c.span.start = v.bind (·.mockedClass)
  overload : overloadSetting f (readArg f c.node) =
    if v.any fun v => v.declaredType == "String" || v.declaredType == "java.lang.String" then .name (f.spell c.node)
    else .defaultAnswer (f.spell c.node)
  settings : settingsOfVariable f (readArg f c.node) =
    match (v.bind (·.initializer)).bind f.callWithSpan? with
    | some call => ofSettingsChain (chainOf f call)
    | none => .error (.unsupported ("settings variable " ++ f.spell c.node))
  spied : spiedType? f (readArg f c.node) =
    v.bind fun v => if v.declaredType = "var" then none else some (rawType v.declaredType)

theorem standsFor_lookup? {f : File} {c : Cursor} (hkind : c.kind = .fieldAccess) :
    StandsFor f c (f.lookup? (withoutThis (f.spell c.node)) c.span.start) := by
  have hnode : c.node.kind = .fieldAccess := hkind
  have href : (readArg f c.node).kind = .reference := by
    rw [kind_readArg (by rw [Node.isCall, hnode]; rfl), plainKind, hnode]
  refine ⟨rfl, ?_, ?_, ?_⟩
  · simp only [overloadSetting, isStringVariable, Arg.isStringLiteral, Arg.isReference, href, text_readArg,
      span_readArg]
    rfl
  · rw [settingsOfVariable, text_readArg, span_readArg]
    rfl
  · rw [spiedType?, href]
    simp only [text_readArg, span_readArg, Cursor.span]
    cases f.lookup? (withoutThis (f.spell c.node)) c.node.span.start <;> rfl

theorem typeOf_ownAccess {f : File} {c : Cursor} {name : String} (h : OwnAccess f c name) :
    f.names.typeOf c.node = (Variable.field? f.declared name).bind (·.apiType) := by
  obtain ⟨object, hobject, hthis⟩ := Option.map_eq_some_iff.mp h.object
  obtain ⟨field, hfield, rfl⟩ := Option.map_eq_some_iff.mp h.field
  have hkind := h.kind
  obtain ⟨⟨kind, role, span, children⟩, above⟩ := c
  obtain rfl : kind = .fieldAccess := hkind
  rw [Names.typeOf, Names.ownFieldType?]
  rw [show children.find? (·.role == some .object) = some object from hobject,
    show children.find? (·.role == some .field) = some field from hfield]
  simp only [hthis, beq_self_eq_true, if_true]
  rfl

theorem exists_ownAccess {f : File} {name : String} {p : Cursor → Bool}
    (h : ((Cursor.all f.tree).find? (·.kind == .fieldAccess)).any (fun c =>
      (c.node.child? .object).map (·.kind) == some .thisExpression &&
        (c.node.child? .field).map f.spell == some name && p c) = true) :
    ∃ c, OwnAccess f c name ∧ p c = true := by
  obtain ⟨c, hc, h⟩ := (Option.any_eq_true _ _).mp h
  simp only [Bool.and_eq_true, beq_iff_eq] at h
  have hkind : c.kind = .fieldAccess := by simpa using List.find?_some hc
  exact ⟨c, ⟨Cursor.in_of_mem_all (List.mem_of_find?_eq_some hc), hkind, h.1.1, h.1.2⟩, h.2⟩

theorem eq_some_of_declaredAt {declared : List Variable} {found : Option Variable} {v : Variable} {offset : Nat}
    (hnodup : (declared.map (·.declaredAt)).Nodup) (hmem : ∀ w ∈ found, w ∈ declared)
    (h : found.any (·.declaredAt == offset) = true) (hv : v ∈ declared) (hat : v.declaredAt = offset) :
    found = some v := by
  obtain ⟨w, rfl, hw⟩ := (Option.any_eq_true _ _).mp h
  rw [List.inj_on_of_nodup_map hnodup (hmem w rfl) hv ((beq_iff_eq.mp hw).trans hat.symm)]

/-- What a field taken from `this` is read as is the field meant unless its name is spelled in another way, the field is
out of sight, or a declaration in sight does not reach around all of the class; its type is that of the field meant
unless the file declares a field of the name before. -/
theorem own_access_stands_for_field_iff {source : String} {c : Cursor} {name : String}
    (h : OwnAccess (File.read source) c name) :
    let f := File.read source
    let reference := withoutThis (f.spell c.node)
    let own := ownField? f c name
    StandsFor f c (f.lookup? reference c.span.start) ∧
      f.names.typeOf c.node = (Variable.field? f.declared name).bind (·.apiType) ∧
      (f.lookup? reference c.span.start = own ↔
        (∀ v ∈ own, v.CountsAt reference c.span.start) ∧
          ∀ w ∈ f.declared, w.CountsAt reference c.span.start → ∃ v ∈ own, w.scope.contains v.scope = true) ∧
      (Variable.field? f.declared name = own ↔
        ∀ front w back, f.declared = front ++ w :: back → w.kind = .field → w.name = name →
          ∃ v ∈ own, v ∈ front ++ [w]) :=
  ⟨standsFor_lookup? h.kind, typeOf_ownAccess h, lookup?_eq_ownField?_iff h.place h.kind, field?_eq_ownField?_iff⟩

theorem own_access_stands_for_field_iff_nested :
    let f := File.read "class A\x7bclass B\x7bint x;void t(int y)\x7bf(this.x);\x7d\x7dString x;\x7d"
    ∃ c own parameter outer, OwnAccess f c "x" ∧ f.declared = [own, parameter, outer] ∧
      ownField? f c "x" = some own ∧ f.lookup? (withoutThis (f.spell c.node)) c.span.start = some own ∧
      Variable.field? f.declared "x" = some own := by
  -- the file stays a variable, so that it is read once and not again for each fact about it
  generalize hfile : File.read _ = f
  dsimp only
  obtain ⟨c, haccess, hcomputed⟩ : ∃ c, OwnAccess f c "x" ∧ (withoutThis (f.spell c.node) == "x" &&
      c.span.start == 38 && (ownField? f c "x").any (·.declaredAt == 20) &&
      f.declared.map (fun v => (v.declaredAt, v.name, v.scope)) ==
        [(20, "x", ⟨15, 48⟩), (33, "y", ⟨22, 47⟩), (55, "x", ⟨7, 58⟩)]) = true :=
    exists_ownAccess (by subst hfile; decide +kernel)
  simp only [Bool.and_eq_true, beq_iff_eq, List.map_eq_cons_iff, List.map_eq_nil_iff, Prod.mk.injEq] at hcomputed
  obtain ⟨⟨⟨hreference, hstart⟩, hown⟩, own, _, hsplit, ⟨hat, -, hscope⟩, parameter, _, rfl, ⟨hat', hname, -⟩, outer, _,
    rfl, ⟨hat'', -, hwide⟩, rfl⟩ := hcomputed
  have hnodup : (f.declared.map (·.declaredAt)).Nodup := by
    simp [hsplit, hat, hat', hat'']
  replace hown : ownField? f c "x" = some own :=
    eq_some_of_declaredAt hnodup (fun v hv => mem_of_ownField? hv) hown (by simp [hsplit]) hat
  obtain ⟨hkind, hx, -⟩ := split_of_ownField? hown
  subst hfile
  obtain ⟨-, -, hlookup, hfirst⟩ := own_access_stands_for_field_iff haccess
  rw [hown] at hlookup hfirst
  refine ⟨c, own, parameter, outer, haccess, hsplit, hown, hlookup.mpr ⟨?_, ?_⟩, hfirst.mpr ?_⟩
  · intro v hv
    obtain rfl := Option.some.inj hv
    exact ⟨hx.trans hreference.symm, by rw [hscope, hstart]; decide, by rw [hscope, hstart]; decide, .inl hkind⟩
  · intro w hw hcounts
    refine ⟨own, rfl, ?_⟩
    rw [hsplit] at hw
    simp only [List.mem_cons, List.not_mem_nil, or_false] at hw
    rcases hw with rfl | rfl | rfl
    · exact Span.contains_refl _
    · exact absurd (hname.symm.trans (hcounts.1.trans hreference)) (by decide)
    · rw [hscope, hwide]
      decide
  · intro front w back hfront _ _
    refine ⟨own, rfl, ?_⟩
    rw [hsplit] at hfront
    cases front with
    | nil => exact (List.cons.inj hfront).1 ▸ .head []
    | cons v front => exact (List.cons.inj hfront).1 ▸ .head _

/-- A local variable is read for the field, and the type is that of a field of another class. -/
theorem own_access_stands_for_local :
    let f := File.read ("import org.mockito.*;class A\x7bMockSettings x;\x7d" ++
      "class T\x7bString x;void t()\x7bint x=0;Mockito.mock(S.class,this.x);\x7d\x7d")
    ∃ c other own inner, OwnAccess f c "x" ∧ f.declared = [other, own, inner] ∧
      ownField? f c "x" = some own ∧ own.declaredType = "String" ∧
      StandsFor f c (some inner) ∧ inner.kind = .local ∧ inner.declaredType = "int" ∧
      overloadSetting f (readArg f c.node) = .defaultAnswer "this.x" ∧
      Variable.field? f.declared "x" = some other ∧ f.names.typeOf c.node = some .mockSettings := by
  generalize hfile : File.read _ = f
  dsimp only
  obtain ⟨c, haccess, hcomputed⟩ : ∃ c, OwnAccess f c "x" ∧ ((ownField? f c "x").any (·.declaredAt == 60) &&
      (f.lookup? (withoutThis (f.spell c.node)) c.span.start).any (·.declaredAt == 75) &&
      (Variable.field? f.declared "x").any (·.declaredAt == 42) &&
      overloadSetting f (readArg f c.node) == .defaultAnswer "this.x" &&
      f.names.typeOf c.node == some .mockSettings &&
      f.declared.map (fun v => (v.declaredAt, v.kind, v.declaredType)) ==
        [(42, .field, "MockSettings"), (60, .field, "String"), (75, .local, "int")]) = true :=
    exists_ownAccess (by subst hfile; decide +kernel)
  simp only [Bool.and_eq_true, beq_iff_eq, List.map_eq_cons_iff, List.map_eq_nil_iff, Prod.mk.injEq] at hcomputed
  obtain ⟨⟨⟨⟨⟨hown, hread⟩, hfirst⟩, hoverload⟩, htype⟩, other, _, hsplit, ⟨hat, -⟩, own, _, rfl,
    ⟨hat', -, hstring⟩, inner, _, rfl, ⟨hat'', hlocal, hint⟩, rfl⟩ := hcomputed
  have hnodup : (f.declared.map (·.declaredAt)).Nodup := by
    simp [hsplit, hat, hat', hat'']
  replace hown : ownField? f c "x" = some own :=
    eq_some_of_declaredAt hnodup (fun v hv => mem_of_ownField? hv) hown (by simp [hsplit]) hat'
  replace hread : f.lookup? (withoutThis (f.spell c.node)) c.span.start = some inner :=
    eq_some_of_declaredAt hnodup (fun v hv => Variable.mem_of_lookup? hv) hread (by simp [hsplit]) hat''
  replace hfirst : Variable.field? f.declared "x" = some other :=
    eq_some_of_declaredAt hnodup (fun v hv => Variable.mem_of_field? hv) hfirst (by simp [hsplit]) hat
  have hstands : StandsFor f c (f.lookup? (withoutThis (f.spell c.node)) c.span.start) :=
    standsFor_lookup? haccess.kind
  rw [hread] at hstands
  exact ⟨c, other, own, inner, haccess, hsplit, hown, hstring, hstands, hlocal, hint, hoverload, hfirst, htype⟩

end MockDialect.Creation
