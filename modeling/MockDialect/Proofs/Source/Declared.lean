import MockDialect.Proofs.Source.Lookup
import MockDialect.Proofs.Source.Sound

namespace MockDialect.Source

open Api Java Text

theorem apiType_of_declared? {names : Names} {kind : VariableKind} {type : String} {scope : Span} {holder : Node}
    {v : Variable} (h : names.declared? kind type scope holder = some v) :
    v.declaredType = type ∧ (type ≠ "var" → v.apiType = declaredApiType? names.imports type) := by
  unfold Names.declared? at h
  split at h
  · cases h
  · obtain rfl := Option.some.inj h
    refine ⟨rfl, fun hvar => ?_⟩
    dsimp only
    rw [if_neg (mt beq_iff_eq.mp hvar)]
    cases declaredApiType? names.imports type <;> rfl

theorem apiType_of_mem_declaredVariables {text : List Char} {imports : Imports} {tree : Node} {v : Variable}
    (h : v ∈ declaredVariables text imports tree) (hvar : v.declaredType ≠ "var") :
    v.apiType = declaredApiType? imports v.declaredType := by
  have hdeclared : ∃ kind type scope holder, Names.declared? ⟨text, imports, []⟩ kind type scope holder = some v := by
    obtain ⟨c, -, hv⟩ := List.mem_flatMap.mp h
    unfold Names.declaredAt at hv
    split at hv
    · obtain ⟨holder, -, hv⟩ := List.mem_filterMap.mp hv
      exact ⟨_, _, _, _, hv⟩
    · obtain ⟨holder, -, hv⟩ := List.mem_filterMap.mp hv
      exact ⟨_, _, _, _, hv⟩
    · exact ⟨_, _, _, _, Option.mem_toList.mp hv⟩
    · split at hv
      · exact ⟨_, _, _, _, Option.mem_toList.mp hv⟩
      · cases hv
    · cases hv
  obtain ⟨kind, type, scope, holder, hv⟩ := hdeclared
  obtain ⟨rfl, hapi⟩ := apiType_of_declared? hv
  exact hapi hvar

theorem declaredApiType?_object (imports : Imports) : declaredApiType? imports "Object" = none := by
  have hbase : trim (upTo '<' "Object") = "Object" := by decide +kernel
  have hnames : ∀ entry ∈ ApiType.declarable,
      ("Object" == entry.1) = false ∧ ("Object" == simpleName entry.1) = false := by
    decide +kernel
  rw [declaredApiType?, hbase, Option.map_eq_none_iff, List.find?_eq_none]
  intro entry hentry
  obtain ⟨hqualified, hsimple⟩ := hnames entry hentry
  simp [Imports.resolves, hqualified, hsimple]

theorem apiType_of_object (source : String) (h : ∀ x ∈ (File.read source).declared, x.declaredType = "Object") :
    ∀ x ∈ (File.read source).declared, x.declaredType = "Object" ∧ x.apiType = none := by
  intro x hx
  have htype := h x hx
  obtain ⟨tree, broken, -, he⟩ := File.read_eq source
  rw [he] at hx
  refine ⟨htype, (apiType_of_mem_declaredVariables hx (by rw [htype]; decide)).trans ?_⟩
  rw [htype, declaredApiType?_object]

end MockDialect.Source
