import MockDialect.Proofs.Settings.Normal

namespace MockDialect.Settings

variable {c d : BuilderCall} {calls others : List BuilderCall}

namespace Attributes

/-- The methods of the calls that settings are written as, in the order in which they are written. -/
def methodOrder : List String :=
  ["lenient", "name", "strictness", "mockMaker", "defaultAnswer", "serializable", "stubOnly", "extraInterfaces"]

variable {a : Attributes}

theorem apply_of_same_method (a : Attributes) (h : c.method = d.method) : (a.apply c).apply d = a.apply d := by
  cases c <;> cases d <;> simp [BuilderCall.method] at h <;> simp only [apply]

theorem apply_of_other_method (a : Attributes) (h : c.method ≠ d.method) :
    (a.apply c).apply d = (a.apply d).apply c := by
  cases c <;> cases d <;> simp [BuilderCall.method] at h <;> simp only [apply]

theorem foldl_behind_others (a : Attributes) (h : ∀ d ∈ calls, d.method ≠ c.method) :
    calls.foldl apply (a.apply c) = (calls.foldl apply a).apply c := by
  induction calls generalizing a with
  | nil => rfl
  | cons d calls ih =>
    rw [List.foldl_cons, List.foldl_cons, apply_of_other_method a (h d (.head calls)).symm]
    exact ih (a.apply d) fun e he => h e (.tail d he)

theorem foldl_overridden (a : Attributes) (h : ∃ d ∈ calls, d.method = c.method) :
    calls.foldl apply (a.apply c) = calls.foldl apply a := by
  induction calls generalizing a with
  | nil =>
    obtain ⟨d, hd, -⟩ := h
    cases hd
  | cons d calls ih =>
    rw [List.foldl_cons, List.foldl_cons]
    by_cases hd : c.method = d.method
    · rw [apply_of_same_method a hd]
    · rw [apply_of_other_method a hd]
      apply ih
      obtain ⟨e, he, hmethod⟩ := h
      cases he with
      | head => exact absurd hmethod.symm hd
      | tail _ he => exact ⟨e, he, hmethod⟩

theorem foldl_eq_of_filter_eq (a : Attributes)
    (h : ∀ m : String, calls.filter (·.method == m) = others.filter (·.method == m)) :
    calls.foldl apply a = others.foldl apply a := by
  induction calls generalizing a others with
  | nil =>
    cases others with
    | nil => rfl
    | cons d others => simpa using h d.method
  | cons c calls ih =>
    -- the first call of its method in the other list is this one, and it can be made first
    have hfirst := h c.method
    rw [List.filter_cons, if_pos (beq_self_eq_true _)] at hfirst
    obtain ⟨front, back, rfl, hfront, -, hback⟩ := List.filter_eq_cons_iff.mp hfirst.symm
    have hothers : ∀ d ∈ front, d.method ≠ c.method := fun d hd => by simpa using hfront d hd
    rw [List.foldl_cons, List.foldl_append, List.foldl_cons, ← foldl_behind_others a hothers, ← List.foldl_append]
    apply ih
    intro m
    by_cases hm : c.method = m
    · subst hm
      rw [List.filter_append, List.filter_eq_nil_iff.mpr hfront, List.nil_append, hback]
    · simpa [List.filter_cons, List.filter_append, hm] using h m

theorem sublist_methodOrder (a : Attributes) : (a.toBuilderCalls.map (·.method)).Sublist methodOrder := by
  have hset (set : Bool) (call : BuilderCall) : ((if set then [call] else []).map (·.method)).Sublist [call.method] := by
    cases set <;> simp
  have hgiven {α : Type} (value : Option α) (call : α → BuilderCall) (method : String)
      (hmethod : ∀ x, (call x).method = method) : ((value.map call).toList.map (·.method)).Sublist [method] := by
    cases value <;> simp [hmethod]
  have hsome (types : List String) :
      ((if types.isEmpty then [] else [BuilderCall.extraInterfaces types]).map (·.method)).Sublist
        ["extraInterfaces"] := by
    cases types <;> simp [BuilderCall.method]
  simp only [toBuilderCalls, List.map_append]
  exact ((((((((hset a.lenient .lenient).append (hgiven a.name .name "name" fun _ => rfl)).append
    (hgiven a.strictness .strictness "strictness" fun _ => rfl)).append
    (hgiven a.mockMaker .mockMaker "mockMaker" fun _ => rfl)).append
    (hgiven a.answer .defaultAnswer "defaultAnswer" fun _ => rfl)).append
    (hset a.serializable (.serializable a.serializableMode))).append (hset a.stubOnly .stubOnly)).append
    (hsome a.extraInterfaces))

/-- Settings do not depend on the order of calls of different methods, nor on a call that another one of its method
follows. The list that they are written as has at most one call of each method, in a fixed order, and gives itself
again. -/
theorem last_call_of_each_method_counts (calls : List BuilderCall) :
    (∀ others, others.Perm calls →
      (∀ m : String, others.filter (·.method == m) = calls.filter (·.method == m)) →
      ofBuilderCalls others = ofBuilderCalls calls) ∧
    (∀ front call back, calls = front ++ call :: back → (∃ later ∈ back, later.method = call.method) →
      ofBuilderCalls (front ++ back) = ofBuilderCalls calls) ∧
    let canonical := (ofBuilderCalls calls).toBuilderCalls
    (canonical.map (·.method)).Nodup ∧ (canonical.map (·.method)).Sublist methodOrder ∧
      (ofBuilderCalls canonical).toBuilderCalls = canonical := by
  refine ⟨?_, ?_, ?_, ?_, ?_⟩
  · intro others _ h
    exact foldl_eq_of_filter_eq {} h
  · intro front call back hcalls hlater
    rw [hcalls, ofBuilderCalls, ofBuilderCalls, List.foldl_append, List.foldl_append, List.foldl_cons,
      foldl_overridden _ hlater]
  · have hnodup : methodOrder.Nodup := by decide
    exact hnodup.sublist (sublist_methodOrder _)
  · exact sublist_methodOrder _
  · rw [ofBuilderCalls_toBuilderCalls_eq_iff.mpr (normal_ofBuilderCalls calls)]

theorem last_call_of_each_method_counts_taken_back :
    let calls : List BuilderCall :=
      [.serializable (some "mode"), .name "x", .stubOnly, .name "", .serializable none, .lenient]
    let others : List BuilderCall :=
      [.name "x", .lenient, .serializable (some "mode"), .name "", .stubOnly, .serializable none]
    ofBuilderCalls others = ofBuilderCalls calls ∧
      ofBuilderCalls [.name "x", .stubOnly, .name "", .serializable none, .lenient] = ofBuilderCalls calls ∧
      (ofBuilderCalls calls).toBuilderCalls = [.lenient, .serializable none, .stubOnly] := by
  intro calls others
  have hperm : others.Perm calls := by decide
  have hsame : ∀ m : String, others.filter (·.method == m) = calls.filter (·.method == m) := by
    intro m
    by_cases hname : m = "name"
    · subst hname
      rfl
    by_cases hmode : m = "serializable"
    · subst hmode
      rfl
    by_cases hlenient : m = "lenient"
    · subst hlenient
      rfl
    simp [calls, others, BuilderCall.method, List.filter_cons, Ne.symm hname, Ne.symm hmode, Ne.symm hlenient]
  have hlater : ∃ later ∈ calls.tail, later.method = (BuilderCall.serializable (some "mode")).method :=
    ⟨.serializable none, by decide, rfl⟩
  exact ⟨(last_call_of_each_method_counts calls).1 others hperm hsame,
    (last_call_of_each_method_counts calls).2.1 [] _ calls.tail rfl hlater, by decide⟩

end Attributes

end MockDialect.Settings
