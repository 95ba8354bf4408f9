import MockDialect.Proofs.Conversion.Folding

namespace MockDialect.Conversion

open Chain Edit Source Text
open Stubbing (Run ThrowForm Mixture callsAt)

variable {d : Stubbing.Dialect} {chain : Chain} {r : Run} {form : ThrowForm} {call first : Call} {a : Arg}

/-- The arguments of a throwing setter are of one form, so that there is an overload that takes them. -/
def ThrowsOneForm (d : Stubbing.Dialect) (call : Call) : Prop :=
  d.throwsClasses call = true ∨ d.throwsInstances call = true

instance (d : Stubbing.Dialect) (call : Call) : Decidable (ThrowsOneForm d call) :=
  inferInstanceAs (Decidable (_ ∨ _))

/-- Whether an argument can be given by a class. -/
def standsForClass (a : Arg) : Bool :=
  match a.kind with
  | .classLiteral _ | .newInstance _ _ => true
  | _ => false

theorem isClassLiteral_keep (a : Arg) : (ThrowForm.keep.change a).isClassLiteral = a.isClassLiteral := by
  rw [ThrowForm.change_keep]

theorem isClassLiteral_toClasses (a : Arg) : (ThrowForm.toClasses.change a).isClassLiteral = standsForClass a := by
  obtain ⟨text, span, kind, type⟩ := a
  cases kind <;> rfl

theorem isClassLiteral_toInstances (a : Arg) : (ThrowForm.toInstances.change a).isClassLiteral = false := by
  obtain ⟨text, span, kind, type⟩ := a
  cases kind <;> rfl

theorem standsForClass_of_isClassLiteral (h : a.isClassLiteral = true) : standsForClass a = true := by
  obtain ⟨text, span, kind, type⟩ := a
  cases kind with
  | classLiteral => rfl
  | _ => cases h

theorem throwsOneForm_iff (h : d.isThrow call = true) :
    ThrowsOneForm d call ↔
      (∀ a ∈ call.args, a.isClassLiteral = true) ∨ ∀ a ∈ call.args, a.isClassLiteral = false := by
  simp [ThrowsOneForm, Stubbing.Dialect.throwsClasses, Stubbing.Dialect.throwsInstances, h]

theorem isThrow_of_mem_callsAt (hr : r ∈ d.throwRuns chain) (hcall : call ∈ callsAt chain r.indices) :
    d.isThrow call = true := by
  obtain ⟨i, hi, hget⟩ := List.mem_filterMap.mp hcall
  obtain ⟨call', hget', hthrow⟩ := (Stubbing.Dialect.throwRuns_of hr).member i hi
  rwa [Option.some.inj (hget.symm.trans hget')]

theorem mixture_of_mem_throwRuns (hr : r ∈ d.throwRuns chain) :
    r.mixture = some (d.mixtureOf (callsAt chain r.indices)) := by
  obtain ⟨indices, -, rfl⟩ := List.mem_map.mp hr
  rfl

inductive Blend (calls : List Call) : Mixture → Prop where
  | classes (all : ∀ call ∈ calls, ∀ a ∈ call.args, a.isClassLiteral = true) : Blend calls .classes
  | instances (all : ∀ call ∈ calls, ∀ a ∈ call.args, a.isClassLiteral = false) : Blend calls .instances
  | mixed (some : ∃ call ∈ calls, ∃ a ∈ call.args, a.isClassLiteral = true) : Blend calls .mixed
  | mixedWithArguments : Blend calls .mixedWithArguments

theorem blend_mixtureOf {calls : List Call} (hthrow : ∀ call ∈ calls, d.isThrow call = true)
    (hform : ∀ call ∈ calls, ThrowsOneForm d call) : Blend calls (d.mixtureOf calls) := by
  unfold Stubbing.Dialect.mixtureOf
  dsimp only
  split
  case isTrue hnone =>
    refine .instances fun call hcall => ?_
    have hclasses : d.throwsClasses call = false := by
      have hall := List.any_eq_false.mp (Bool.not_eq_true' _ ▸ hnone) call hcall
      exact Bool.eq_false_iff.mpr hall
    have hinstances := (hform call hcall).resolve_left (Bool.eq_false_iff.mp hclasses)
    simpa [Stubbing.Dialect.throwsInstances, hthrow call hcall] using hinstances
  case isFalse hsome =>
    split
    case isTrue hempty =>
      refine .classes fun call hcall => ?_
      have hinstances : ¬ d.throwsInstances call = true :=
        List.filter_eq_nil_iff.mp (List.isEmpty_iff.mp hempty) call hcall
      have hclasses := (hform call hcall).resolve_right hinstances
      simpa [Stubbing.Dialect.throwsClasses, hthrow call hcall] using hclasses
    case isFalse =>
      split
      case isTrue => exact .mixedWithArguments
      case isFalse =>
        obtain ⟨call, hcall, hclasses⟩ : ∃ call ∈ calls, d.throwsClasses call = true := by simpa using hsome
        simp only [Stubbing.Dialect.throwsClasses, Stubbing.Dialect.isThrow, Bool.and_eq_true, Bool.not_eq_true',
          List.all_eq_true] at hclasses
        obtain ⟨a, ha⟩ := List.exists_mem_of_ne_nil _ (List.isEmpty_eq_false_iff.mp hclasses.1.1.2)
        exact .mixed ⟨call, hcall, a, ha, hclasses.2 a ha⟩

theorem Blend.change_iff {calls : List Call} {mixture : Mixture} (h : Blend calls mixture)
    (hform : form ∈ mixture.forms) :
    (∀ call ∈ calls, ∀ a ∈ call.args, (form.change a).isClassLiteral = true) ∨
        (∀ call ∈ calls, ∀ a ∈ call.args, (form.change a).isClassLiteral = false) ↔
      (form = .toClasses → ∀ call ∈ calls, ∀ a ∈ call.args, standsForClass a = true) := by
  cases h with
  | classes all =>
    obtain rfl := List.mem_singleton.mp hform
    simp only [isClassLiteral_keep]
    exact ⟨fun _ h => (nomatch h), fun _ => .inl all⟩
  | instances all =>
    obtain rfl := List.mem_singleton.mp hform
    simp only [isClassLiteral_keep]
    exact ⟨fun _ h => (nomatch h), fun _ => .inr all⟩
  | mixedWithArguments =>
    obtain rfl := List.mem_singleton.mp hform
    exact ⟨fun _ h => (nomatch h), fun _ => .inr fun _ _ a _ => isClassLiteral_toInstances a⟩
  | mixed some =>
    rcases List.mem_pair.mp hform with rfl | rfl
    · -- a class is there before the change, so the arguments cannot all be instances after it
      obtain ⟨call, hcall, a, ha, hclass⟩ := some
      simp only [isClassLiteral_toClasses, forall_const]
      refine ⟨fun h => h.resolve_right fun hnone => ?_, .inl⟩
      have hstands := standsForClass_of_isClassLiteral hclass
      rw [hnone call hcall a ha] at hstands
      cases hstands
    · exact ⟨fun _ h => (nomatch h), fun _ => .inr fun _ _ a _ => isClassLiteral_toInstances a⟩

theorem mem_args_fold {x : Arg} :
    x ∈ (r.fold chain form first).args ↔ ∃ call ∈ callsAt chain r.indices, ∃ a ∈ call.args, form.change a = x := by
  simp only [Run.fold, List.mem_map, List.mem_flatMap]
  constructor
  · rintro ⟨a, ⟨call, hcall, ha⟩, h⟩
    exact ⟨call, hcall, a, ha, h⟩
  · rintro ⟨call, hcall, a, ha, h⟩
    exact ⟨a, ⟨call, hcall, ha⟩, h⟩

theorem isThrow_fold (hfirst : first ∈ callsAt chain r.indices) (hthrow : d.isThrow first = true) :
    d.isThrow (r.fold chain form first) = true := by
  simp only [Stubbing.Dialect.isThrow, Bool.and_eq_true, Bool.not_eq_true', List.isEmpty_eq_false_iff] at hthrow ⊢
  refine ⟨⟨hthrow.1.1, ?_⟩, hthrow.2⟩
  obtain ⟨a, ha⟩ := List.exists_mem_of_ne_nil _ hthrow.1.2
  exact List.ne_nil_of_mem (mem_args_fold.mpr ⟨first, hfirst, a, ha, rfl⟩)

theorem throwsOneForm_fold (hthrow : d.isThrow (r.fold chain form first) = true) :
    ThrowsOneForm d (r.fold chain form first) ↔
      (∀ call ∈ callsAt chain r.indices, ∀ a ∈ call.args, (form.change a).isClassLiteral = true) ∨
        ∀ call ∈ callsAt chain r.indices, ∀ a ∈ call.args, (form.change a).isClassLiteral = false := by
  have hall (b : Bool) : (∀ x ∈ (r.fold chain form first).args, x.isClassLiteral = b) ↔
      ∀ call ∈ callsAt chain r.indices, ∀ a ∈ call.args, (form.change a).isClassLiteral = b := by
    refine ⟨fun h call hcall a ha => h _ (mem_args_fold.mpr ⟨call, hcall, a, ha, rfl⟩), fun h x hx => ?_⟩
    obtain ⟨call, hcall, a, ha, rfl⟩ := mem_args_fold.mp hx
    exact h call hcall a ha
  rw [throwsOneForm_iff hthrow, hall, hall]

/-- Folding a run of throwing setters, each of one form, gives a setter of one form, but for this: where classes are
asked for, every argument has to stand for one. -/
theorem folded_throws_one_form_iff (d : Stubbing.Dialect) (chain : Chain) (r : Run) (form : ThrowForm)
    (hr : r ∈ d.throwRuns chain) (hcalls : ∀ call ∈ callsAt chain r.indices, ThrowsOneForm d call)
    (hform : form ∈ r.forms) :
    ∃ first last, r.indices.head?.bind chain.get? = some first ∧ r.indices.getLast?.bind chain.get? = some last ∧
      mergeRun chain r form = .ok (replace ⟨first.nameSpan.start, last.span.stop⟩
        ((r.fold chain form first).name ++ (r.fold chain form first).argsText)) ∧
      (ThrowsOneForm d (r.fold chain form first) ↔
        (form = .toClasses → ∀ call ∈ callsAt chain r.indices, ∀ a ∈ call.args, standsForClass a = true)) := by
  have hmem : r ∈ d.runs chain := List.mem_append_left _ hr
  obtain ⟨e, -, ⟨hstarts, hread, hstops, -, -, -⟩⟩ := @foldedBy_of_mem d chain (fun _ => form) r hmem hform
  rename_i i first last
  have hfirst : r.indices.head?.bind chain.get? = some first := by rw [hstarts, Option.bind_some, hread]
  have hcall : first ∈ callsAt chain r.indices := List.mem_filterMap.mpr ⟨i, List.mem_of_head? hstarts, hread⟩
  have hthrow : ∀ call ∈ callsAt chain r.indices, d.isThrow call = true := fun call => isThrow_of_mem_callsAt hr
  refine ⟨first, last, hfirst, hstops, mergeRun_eq_fold hmem hform hfirst hstops, ?_⟩
  rw [throwsOneForm_fold (isThrow_fold hcall (hthrow first hcall))]
  rw [Run.forms, mixture_of_mem_throwRuns hr] at hform
  exact (blend_mixtureOf hthrow hcalls).change_iff hform

theorem folded_throws_one_form_classes :
    let f := File.read ("import org.mockito.*;class T\x7b\x7bMockito.when(a.b()).thenThrow(A.class)" ++
      ".thenThrow(new B(), new C());\x7d\x7d")
    let d := Stubbing.Dialect.mockitoWhen
    ∃ place r first, f.callAt? 40 = some place ∧ r ∈ d.throwRuns (chainOf f place) ∧
      (∀ call ∈ callsAt (chainOf f place) r.indices, ThrowsOneForm d call) ∧ .toClasses ∈ r.forms ∧
      (r.fold (chainOf f place) .toClasses first).argsText = "(A.class, B.class, C.class)" ∧
      ThrowsOneForm d (r.fold (chainOf f place) .toClasses first) := by
  intro f d
  have hcomputed : ((f.callAt? 40).any fun place => (d.throwRuns (chainOf f place)).head?.any fun r : Run =>
      decide ((∀ call ∈ callsAt (chainOf f place) r.indices, ThrowsOneForm d call) ∧ .toClasses ∈ r.forms ∧
        ∀ call ∈ callsAt (chainOf f place) r.indices, ∀ a ∈ call.args, standsForClass a = true) &&
      (r.indices.head?.bind (chainOf f place).get?).any fun first =>
        (r.fold (chainOf f place) .toClasses first).argsText == "(A.class, B.class, C.class)") = true := by
    decide +kernel
  obtain ⟨place, hplace, hcomputed⟩ := (Option.any_eq_true _ _).mp hcomputed
  obtain ⟨r, hr, hcomputed⟩ := (Option.any_eq_true _ _).mp hcomputed
  rw [Bool.and_eq_true, decide_eq_true_eq] at hcomputed
  obtain ⟨⟨hcalls, hform, hstands⟩, hcomputed⟩ := hcomputed
  obtain ⟨first, hfirst, hargs⟩ := (Option.any_eq_true _ _).mp hcomputed
  have hr := List.mem_of_head? hr
  obtain ⟨first', last, hfirst', -, -, honeForm⟩ :=
    folded_throws_one_form_iff d (chainOf f place) r .toClasses hr hcalls hform
  obtain rfl := Option.some.inj (hfirst.symm.trans hfirst')
  exact ⟨place, r, first, hplace, hr, hcalls, hform, beq_iff_eq.mp hargs, honeForm.mpr fun _ => hstands⟩

/-- A variable has no class to stand for it, yet a run that throws a class and then a variable is folded into a call
that throws both, which is what no overload takes. -/
theorem folded_throws_class_and_variable :
    let before := "import org.mockito.*;class T\x7b\x7bMockito.when(a.b()).thenThrow(A.class).thenThrow(e);\x7d\x7d"
    let after := "import org.mockito.*;class T\x7b\x7bMockito.when(a.b()).thenThrow(A.class, e);\x7d\x7d"
    let d := Stubbing.Dialect.mockitoWhen
    ∃ place r plan call, (File.read before).callAt? 40 = some place ∧
      r ∈ d.throwRuns (chainOf (File.read before) place) ∧
      (∀ call ∈ callsAt (chainOf (File.read before) place) r.indices, ThrowsOneForm d call) ∧
      r.forms.head? = some .toClasses ∧
      Planner.planMerge { file := File.read before } (.caret 40) none = .ok plan ∧
      plan.preview before = .ok after ∧
      (((File.read after).callAt? 52).bind fun place => readCall? (File.read after) place.node) = some call ∧
      d.isThrow call = true ∧ ¬ ThrowsOneForm d call := by
  intro before after d
  have hcomputed : (((File.read before).callAt? 40).any fun place =>
      (d.throwRuns (chainOf (File.read before) place)).head?.any fun r : Run =>
        decide ((∀ call ∈ callsAt (chainOf (File.read before) place) r.indices, ThrowsOneForm d call) ∧
          r.forms.head? = some .toClasses) &&
        (Planner.planMerge { file := File.read before } (.caret 40) none).toOption.any fun plan =>
          (plan.preview before).toOption == some after &&
          (((File.read after).callAt? 52).bind fun place => readCall? (File.read after) place.node).any fun call =>
            decide (d.isThrow call = true ∧ ¬ ThrowsOneForm d call)) = true := by
    decide +kernel
  obtain ⟨place, hplace, hcomputed⟩ := (Option.any_eq_true _ _).mp hcomputed
  obtain ⟨r, hr, hcomputed⟩ := (Option.any_eq_true _ _).mp hcomputed
  rw [Bool.and_eq_true, decide_eq_true_eq] at hcomputed
  obtain ⟨⟨hcalls, hforms⟩, hcomputed⟩ := hcomputed
  obtain ⟨plan, hplan, hcomputed⟩ := (Option.any_eq_true _ _).mp hcomputed
  rw [Bool.and_eq_true, beq_iff_eq] at hcomputed
  obtain ⟨call, hcall, hmixed⟩ := (Option.any_eq_true _ _).mp hcomputed.2
  exact ⟨place, r, plan, call, hplace, List.mem_of_head? hr, hcalls, hforms, eq_ok_of_toOption hplan,
    eq_ok_of_toOption hcomputed.1, hcall, decide_eq_true_eq.mp hmixed⟩

end MockDialect.Conversion
