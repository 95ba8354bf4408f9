import MockDialect.Proofs.Java.Extent
import MockDialect.Proofs.Java.Origins
import MockDialect.Proofs.Source.Declared

namespace MockDialect.Java

theorem Kind.cases_of_lastWord? {kind : Kind} (h : kind.lastWord?.isSome = true) :
    kind = .fieldDeclaration ∨ kind = .localVariableDeclaration ∨ kind = .formalParameters ∨
      kind = .resourceSpecification := by
  cases kind <;> simp at h ⊢

theorem Kind.not_holds_of_lastWord? {kind holder : Kind} (hkind : kind.lastWord?.isSome = true)
    (hholder : holder.lastWord?.isSome = true) : holder.holds kind = false := by
  rcases cases_of_lastWord? hkind with rfl | rfl | rfl | rfl <;>
    rcases cases_of_lastWord? hholder with rfl | rfl | rfl | rfl <;> rfl

theorem Kind.eq_fieldDeclaration_of_holds {kind holder : Kind} (hfield : holder.holds .fieldDeclaration = true)
    (hkind : kind.lastWord?.isSome = true) (h : holder.holds kind = true) : kind = .fieldDeclaration := by
  have hholder : holder = .classBody ∨ holder = .enumBodyDeclarations := by simpa using hfield
  rcases cases_of_lastWord? hkind with rfl | rfl | rfl | rfl
  · rfl
  all_goals rcases hholder with rfl | rfl <;> cases h

end MockDialect.Java

namespace MockDialect.Source

open Java Text

/-- A place with a declaration of variables among its children. -/
structure Holds (f : File) (p : Cursor) (declaration : Node) : Prop where
  place : Cursor.In f.tree p
  child : declaration ∈ p.node.children
  declares : declaration.kind.lastWord?.isSome = true

namespace Holds

variable {source : String} {p q : Cursor} {a b : Node}

theorem down (h : Holds (File.read source) p a) : Cursor.In (File.read source).tree ⟨a, p.node :: p.above⟩ :=
  .down h.place h.child

theorem kind_ne_program (h : Holds (File.read source) p a) : a.kind ≠ .program := by
  intro hprogram
  have hdeclares := h.declares
  rw [hprogram] at hdeclares
  cases hdeclares

theorem holds (h : Holds (File.read source) p a) : p.kind.holds a.kind = true := File.read_holds source h.down rfl

theorem nonempty (h : Holds (File.read source) p a) : a.span.start < a.span.stop :=
  (File.read_solid source h.down h.kind_ne_program).self.nonempty

theorem last (h : Holds (File.read source) p a) :
    ∃ last ∈ a.children, last.children = [] ∧ last.span.start < last.span.stop := by
  obtain ⟨word, hword⟩ := Option.isSome_iff_exists.mp h.declares
  obtain ⟨front, last, hchildren, hkind⟩ :=
    (File.read_origin source h.down h.kind_ne_program).self.ends_declaration hword
  have hlast : last ∈ a.children := by simp [hchildren]
  refine ⟨last, hlast, ?_, ((File.read_solid source h.down h.kind_ne_program).child hlast).self.nonempty⟩
  exact ((h.down.all (File.read_sound source).formed).child hlast).self.bare (by rw [hkind]; rfl)

theorem narrower (hp : Holds (File.read source) p a) (hq : Holds (File.read source) q b)
    (h : p ∈ Cursor.outward q.node q.above) :
    p = q ∨ p.span.contains q.span = true ∧ q.span.length < p.span.length := by
  have hf := File.read_sound source
  rcases Cursor.cases_of_mem_outward hq.place h with rfl | ⟨k, hk, -, hwithin⟩
  · exact .inl rfl
  have hplaced := hp.place.placed hf.placed
  have hkin := hplaced.laid.of_mem hk
  have hain := hplaced.laid.of_mem hp.child
  have hqin := hwithin.inside hkin.2.2
  have hbin := (hwithin.placed hkin.2.2).laid.of_mem hq.child
  have hanonempty := hp.nonempty
  have hbnonempty := hq.nonempty
  refine .inr ⟨Span.contains_iff.mpr ⟨Nat.le_trans hkin.1 hqin.1, Nat.le_trans hqin.2 hkin.2.1⟩, ?_⟩
  simp only [Cursor.span, Span.length]
  by_cases hka : k = a
  · subst hka
    rcases hwithin.cases_child with hqk | ⟨m, hm, hwithin⟩
    · have hholds := hq.holds
      rw [Cursor.kind, hqk, Kind.not_holds_of_lastWord? hq.declares hp.declares] at hholds
      cases hholds
    · obtain ⟨last, hlast, hbare, hnonempty⟩ := hp.last
      have hmin := hkin.2.2.laid.of_mem hm
      have hlastin := hkin.2.2.laid.of_mem hlast
      have hinside := hwithin.inside hmin.2.2
      have hne : m ≠ last := by
        rintro rfl
        have hb := hq.child
        rw [hwithin.eq_of_leaf hbare, hbare] at hb
        cases hb
      have hapart := hkin.2.2.apart hm hlast hne
      omega
  · have hapart := hplaced.apart hk hp.child hka
    omega

end Holds

variable {source : String} {v w : Variable}

theorem scope_of_declared? {names : Names} {kind : VariableKind} {type : String} {scope : Span} {holder : Node}
    (h : names.declared? kind type scope holder = some v) : v.kind = kind ∧ v.scope = scope := by
  unfold Names.declared? at h
  split at h
  · cases h
  · obtain rfl := Option.some.inj h
    exact ⟨rfl, rfl⟩

theorem scope_of_declaredAt {names : Names} {c : Cursor} (h : v ∈ names.declaredAt c) :
    ((c.kind = .fieldDeclaration ∨ c.kind = .localVariableDeclaration) ∧ v.scope = Names.parentSpan c ∧
      (v.kind = .field ↔ c.kind = .fieldDeclaration)) ∨
    ((c.kind = .formalParameter ∨ c.kind = .resource) ∧ v.scope = Names.grandparentSpan c ∧ v.kind ≠ .field) := by
  unfold Names.declaredAt at h
  split at h
  case h_1 hkind =>
    obtain ⟨declarator, -, hdeclared⟩ := List.mem_filterMap.mp h
    obtain ⟨hv, hscope⟩ := scope_of_declared? hdeclared
    refine .inl ⟨.inr hkind, hscope, ?_⟩
    rw [hv, hkind]
    exact ⟨nofun, nofun⟩
  case h_2 hkind =>
    obtain ⟨declarator, -, hdeclared⟩ := List.mem_filterMap.mp h
    obtain ⟨hv, hscope⟩ := scope_of_declared? hdeclared
    exact .inl ⟨.inl hkind, hscope, fun _ => hkind, fun _ => hv⟩
  case h_3 hkind =>
    obtain ⟨hv, hscope⟩ := scope_of_declared? (Option.mem_toList.mp h)
    refine .inr ⟨.inl hkind, hscope, ?_⟩
    rw [hv]
    nofun
  case h_4 hkind =>
    split at h
    case h_1 =>
      obtain ⟨hv, hscope⟩ := scope_of_declared? (Option.mem_toList.mp h)
      refine .inr ⟨.inr hkind, hscope, ?_⟩
      rw [hv]
      nofun
    case h_2 => cases h
  case h_5 => cases h

theorem exists_parent_holds {c : Cursor} (h : Cursor.In (File.read source).tree c)
    (hdeclares : c.kind.lastWord?.isSome = true) :
    ∃ p, Holds (File.read source) p c.node ∧ c.parent? = some p := by
  have hkind : c.kind ≠ .program := by
    intro hprogram
    rw [hprogram] at hdeclares
    cases hdeclares
  obtain ⟨p, hp⟩ := exists_parent_of_kind (File.read_sound source) h hkind
  obtain ⟨hin, -, hmem⟩ := h.parent hp
  exact ⟨p, ⟨hin, hmem, hdeclares⟩, hp⟩

theorem exists_holder (h : v ∈ (File.read source).declared) :
    ∃ p a, Holds (File.read source) p a ∧ v.scope = p.span ∧ (v.kind = .field ↔ a.kind = .fieldDeclaration) := by
  obtain ⟨names, c, hc, hv⟩ : ∃ names c, Cursor.In (File.read source).tree c ∧ v ∈ Names.declaredAt names c := by
    obtain ⟨tree, broken, -, he⟩ := File.read_eq source
    rw [he] at h ⊢
    obtain ⟨c, hc, hv⟩ := List.mem_flatMap.mp h
    exact ⟨_, c, Cursor.in_of_mem_all hc, hv⟩
  rcases scope_of_declaredAt hv with ⟨hkind, hscope, hfield⟩ | ⟨hkind, hscope, hfield⟩
  · have hdeclares : c.kind.lastWord?.isSome = true := by rcases hkind with hkind | hkind <;> rw [hkind] <;> rfl
    obtain ⟨p, hp, hparent⟩ := exists_parent_holds hc hdeclares
    refine ⟨p, c.node, hp, ?_, hfield⟩
    rw [hscope, Names.parentSpan, hparent]
    rfl
  · -- the declaration is an element of a list, which stands in what the variable is declared for
    have hprogram : c.kind ≠ .program := by rcases hkind with hkind | hkind <;> rw [hkind] <;> nofun
    obtain ⟨list, hlist⟩ := exists_parent_of_kind (File.read_sound source) hc hprogram
    have hlistKind : list.kind = .formalParameters ∨ list.kind = .resourceSpecification := by
      have hholds := File.read_holds source hc hlist
      rcases hkind with hkind | hkind <;> rw [hkind] at hholds
      · exact .inl (by simpa using hholds)
      · exact .inr (by simpa using hholds)
    have hdeclares : list.kind.lastWord?.isSome = true := by
      rcases hlistKind with hkind | hkind <;> rw [hkind] <;> rfl
    obtain ⟨p, hp, hparent⟩ := exists_parent_holds (hc.parent hlist).1 hdeclares
    refine ⟨p, list.node, hp, ?_, fun hv => absurd hv hfield, fun hdeclaration => ?_⟩
    · rw [hscope, Names.grandparentSpan, hlist, Option.bind_some, hparent]
      rfl
    · have hkind : list.kind = .fieldDeclaration := hdeclaration
      rcases hlistKind with hlistKind | hlistKind <;> cases hkind.symm.trans hlistKind

theorem scope_cases (hv : v ∈ (File.read source).declared) (hw : w ∈ (File.read source).declared) :
    v.scope = w.scope ∧ (v.kind = .field → w.kind = .field) ∨
      v.scope.contains w.scope = true ∧ w.scope.length < v.scope.length ∨
      w.scope.contains v.scope = true ∧ v.scope.length < w.scope.length ∨
      v.scope.stop ≤ w.scope.start ∨ w.scope.stop ≤ v.scope.start := by
  obtain ⟨p, a, hp, hvscope, hvkind⟩ := exists_holder hv
  obtain ⟨q, b, hq, hwscope, hwkind⟩ := exists_holder hw
  have hsame : p = q → v.scope = w.scope ∧ (v.kind = .field → w.kind = .field) := by
    rintro rfl
    refine ⟨hvscope.trans hwscope.symm, fun hfield => hwkind.mpr ?_⟩
    have hholds := hp.holds
    rw [hvkind.mp hfield] at hholds
    exact Kind.eq_fieldDeclaration_of_holds hholds hq.declares hq.holds
  rcases hp.place.nested_or_apart (File.read_sound source).placed.wellFormed hq.place with hnested | hnested | hapart
  · rcases hp.narrower hq hnested with heq | hnarrower
    · exact .inl (hsame heq)
    · exact .inr (.inl (by rwa [hvscope, hwscope]))
  · rcases hq.narrower hp hnested with heq | hnarrower
    · exact .inl (hsame heq.symm)
    · exact .inr (.inr (.inl (by rwa [hvscope, hwscope])))
  · exact .inr (.inr (.inr (by rwa [hvscope, hwscope])))

end MockDialect.Source
