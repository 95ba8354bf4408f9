import MockDialect.Conversion.Report
import MockDialect.Proofs.Conversion.Merging
import MockDialect.Proofs.Creation.Moves

namespace MockDialect.Conversion

open Chain Edit Java Recognition Source Text
open Verification (Head)

section

variable {f : File} {sites : List Site} {source : Verification.Dialect} {target : Verification.Target}
  {base : String} {heads : List Head} {edits : List Edit} {head : Head}

theorem checkOrder_of_mem (h : checkOrder source target heads = .ok ()) (hhead : head ∈ heads) :
    checkOrder source target [head] = .ok () := by
  unfold checkOrder at h ⊢
  split at h
  case h_1 =>
    split at h
    case isTrue => cases h
    case isFalse hnone =>
      rw [if_neg]
      simp only [List.any_eq_true, not_exists, not_and] at hnone
      simpa using hnone head hhead
  case h_2 => simp
  case h_3 => rfl

theorem mockedClasses_of_mem {xs : List (Site × Head)} {x : Site × Head} {classes : List String}
    (h : mockedClasses f target xs = .ok classes) (hx : x ∈ xs) :
    ∃ classes, mockedClasses f target [x] = .ok classes := by
  unfold mockedClasses at h ⊢
  split
  case isFalse => exact ⟨[], rfl⟩
  case isTrue htarget =>
    rw [if_pos htarget] at h
    obtain ⟨cls, -, hcls⟩ := exists_of_mapM h x hx
    exact ⟨[cls], mapM_singleton hcls⟩

theorem or_addedInOrder (hhead : head ∈ heads) :
    head.inOrder.or (addedInOrder f target base [head]) = head.inOrder.or (addedInOrder f target base heads) := by
  cases horder : head.inOrder with
  | some name => rfl
  | none =>
    have hany : heads.any (·.inOrder.isNone) = true := List.any_eq_true.mpr ⟨head, hhead, by simp [horder]⟩
    simp [addedInOrder, hany, horder]

theorem Replaced.alone (h : Replaced f sites source target base heads edits) {site : Site} (hsite : site ∈ sites) :
    ∃ planned, convertVerification f [site] source target base = .ok planned := by
  obtain ⟨head, hzip, hhead, e, -, hreplace⟩ := h.site hsite
  obtain ⟨classes, hclasses⟩ := h.resolved
  have hmem := (List.of_mem_zip hzip).2
  refine convertVerification_of_replaced (replaced_single h.offered hhead (checkOrder_of_mem h.ordered hmem)
    (mockedClasses_of_mem hclasses hzip) (e := e) ?_)
  rw [replaceHead, or_addedInOrder hmem]
  exact hreplace

end

variable {p : Planner} {selection : Selection} {target : Target} {selected : Selected} {plan : Plan}

theorem editsFor_alone {planned : Planned} (h : p.editsFor selected target = .ok planned) {site : Site}
    (hsite : site ∈ selected.sites) :
    ∃ planned, p.editsFor ⟨selected.dialect, [site], true⟩ target = .ok planned := by
  obtain ⟨dialect, sites, bulk⟩ := selected
  cases dialect with
  | stubbing source =>
    cases target with
    | verification => cases h
    | stubbing goal =>
      obtain ⟨edits, hedits, -⟩ := bind_eq_ok.mp h
      obtain ⟨e, -, he⟩ := exists_of_mapM hedits site hsite
      exact ⟨_, bind_eq_ok.mpr ⟨[e], mapM_singleton he, rfl⟩⟩
  | verification source =>
    cases target with
    | stubbing => cases h
    | verification goal =>
      obtain ⟨heads, edits, args, hreplaced, -⟩ := replaced_of_convertVerification h
      exact hreplaced.alone hsite

/-- A conversion that is turned down, at one of its steps. -/
inductive TurnedDown (p : Planner) (selection : Selection) (target : Target) : Prop where
  | selecting {rejection : Rejection} (h : select p.file selection = .error rejection)
  | validating {selected : Selected} {rejection : Rejection} (selects : select p.file selection = .ok selected)
      (h : validate selected = .error rejection)
  | planning {selected : Selected} {rejection : Rejection} (selects : select p.file selection = .ok selected)
      (valid : validate selected = .ok ()) (h : p.planSelected selected target = .error (.unavailable rejection))

theorem plan_eq_ok : p.plan selection target = .ok plan ↔ ∃ selected, select p.file selection = .ok selected ∧
    validate selected = .ok () ∧ p.planSelected selected target = .ok plan := by
  simp only [Planner.plan, bind_eq_ok, orUnavailable_eq_ok]
  exact exists_congr fun _ => and_congr_right fun _ => ⟨fun ⟨_, h⟩ => h, fun h => ⟨(), h⟩⟩

theorem validate_eq_ok : validate selected = .ok () ↔
    ∀ site ∈ selected.sites, selected.dialect.flaw? site.chain = none := by
  rw [← List.findSome?_eq_none_iff, validate]
  split
  case h_1 flaw hflaw => simp [hflaw]
  case h_2 hflaw => simp [hflaw]

theorem planSelected_eq : p.planSelected selected target =
    if p.policy.allows target.family then
      match p.editsFor selected target with
      | .ok planned =>
        planOf p.file.revision (planned.edits ++ (planImports p.file.imports planned.imports).toList)
          (Planner.summaryOf selected target)
      | .error rejection => .error (.unavailable rejection)
    else .error (.unavailable (.targetNotAllowed target)) := by
  unfold Planner.planSelected
  cases p.policy.allows target.family with
  | false => rfl
  | true => cases p.editsFor selected target <;> rfl

theorem planOf_of_editsFor (hf : p.file.Regular) (hsites : Found p.file selected.sites) {planned : Planned}
    (h : p.editsFor selected target = .ok planned) : ∃ plan,
      planOf p.file.revision (planned.edits ++ (planImports p.file.imports planned.imports).toList)
        (Planner.summaryOf selected target) = .ok plan := by
  obtain ⟨hcompatible, hapart⟩ := editsFor_compatible hf hsites h
  obtain ⟨plan, hplan, -⟩ := (compatible_withImports hf hcompatible hapart planned.imports).make p.file.revision
    (Planner.summaryOf selected target)
  exact ⟨plan, by rw [planOf, hplan]⟩

theorem exists_planSelected_iff (hf : p.file.Regular) (hsites : Found p.file selected.sites) :
    (∃ plan, p.planSelected selected target = .ok plan) ↔
      p.policy.allows target.family = true ∧ ∃ planned, p.editsFor selected target = .ok planned := by
  rw [planSelected_eq]
  split
  case isFalse hallowed => simp [hallowed]
  case isTrue hallowed =>
    split
    case h_1 planned hplanned =>
      exact ⟨fun _ => ⟨hallowed, planned, hplanned⟩, fun _ => planOf_of_editsFor hf hsites hplanned⟩
    case h_2 rejection hrejection => simp [hrejection]

theorem planSelected_error (hf : p.file.Regular) (hsites : Found p.file selected.sites) {failure : Failure}
    (h : p.planSelected selected target = .error failure) : ∃ rejection, failure = .unavailable rejection := by
  rw [planSelected_eq] at h
  split at h
  case isFalse => exact ⟨_, (Except.error.inj h).symm⟩
  case isTrue =>
    split at h
    case h_1 planned hplanned =>
      obtain ⟨plan, hplan⟩ := planOf_of_editsFor hf hsites hplanned
      cases hplan.symm.trans h
    case h_2 => exact ⟨_, (Except.error.inj h).symm⟩

theorem turnedDown_or_planned (hf : p.file.Regular) (selection : Selection) (target : Target) :
    TurnedDown p selection target ∨
      ∃ plan result, p.plan selection target = .ok plan ∧ plan.apply p.file.source = .ok result := by
  cases hselect : select p.file selection with
  | error rejection => exact .inl (.selecting hselect)
  | ok selected =>
    have hsites := select_found hf hselect
    cases hvalid : validate selected with
    | error rejection => exact .inl (.validating hselect hvalid)
    | ok =>
      cases hplan : p.planSelected selected target with
      | error failure =>
        obtain ⟨rejection, rfl⟩ := planSelected_error hf hsites hplan
        exact .inl (.planning hselect hvalid hplan)
      | ok plan =>
        obtain ⟨result, hresult⟩ := (applicable_planSelected hf target hsites).applies plan hplan
        exact .inr ⟨plan, result, plan_eq_ok.mpr ⟨selected, hselect, hvalid, hplan⟩, hresult⟩

/-- A range with a statement that cannot be converted: it is in no dialect or in another than the others, it is
no complete sentence, or there is no plan for it alone. -/
inductive Unfit (p : Planner) (target : Target) (span : Span) : Prop where
  | unclassified {statement : Cursor} (mem : statement ∈ p.file.statementsIn span)
      (h : ∀ chain, chainOfStatement? p.file statement = some chain → classify? chain = none)
  | mixed {first second : Cursor} {chain chain' : Chain} (mem : first ∈ p.file.statementsIn span)
      (mem' : second ∈ p.file.statementsIn span) (read : chainOfStatement? p.file first = some chain)
      (read' : chainOfStatement? p.file second = some chain') (h : classify? chain ≠ classify? chain')
  | flawed {statement : Cursor} {chain : Chain} {dialect : Dialect} (mem : statement ∈ p.file.statementsIn span)
      (read : chainOfStatement? p.file statement = some chain) (found : classify? chain = some dialect)
      (h : dialect.flaw? chain ≠ none)
  | refused {statement : Cursor} {chain : Chain} {dialect : Dialect} {failure : Failure}
      (mem : statement ∈ p.file.statementsIn span) (read : chainOfStatement? p.file statement = some chain)
      (found : classify? chain = some dialect)
      (h : p.planSelected ⟨dialect, [⟨chain, statement.span.start⟩], true⟩ target = .error failure)

theorem classify?_of_selectRange {span : Span} (h : selectRange p.file span = .ok selected) :
    ∀ statement ∈ p.file.statementsIn span, ∃ chain, chainOfStatement? p.file statement = some chain ∧
      classify? chain = some selected.dialect ∧ (⟨chain, statement.span.start⟩ : Site) ∈ selected.sites := by
  intro statement hstatement
  obtain ⟨site, hsite, hread⟩ := exists_of_map_eq (selectRange_eq_ok h).symm statement hstatement
  obtain ⟨chain, hchain, hclass, rfl⟩ := readStatement_eq_ok hread.symm
  exact ⟨chain, hchain, hclass, hsite⟩

theorem turnedDown_of_unfit (hf : p.file.Regular) {span : Span} (h : Unfit p target span) :
    TurnedDown p (.range span) target := by
  -- a plan for the range would be one for each of its statements alone
  refine (turnedDown_or_planned hf (.range span) target).resolve_right ?_
  rintro ⟨plan, result, hplan, -⟩
  obtain ⟨selected, hselect, hvalid, hplan⟩ := plan_eq_ok.mp hplan
  have hclass := classify?_of_selectRange hselect
  have hsites := select_found hf hselect
  cases h with
  | unclassified mem h =>
    obtain ⟨chain, hchain, hfound, -⟩ := hclass _ mem
    cases (h chain hchain).symm.trans hfound
  | mixed mem mem' read read' h =>
    obtain ⟨chain, hchain, hfound, -⟩ := hclass _ mem
    obtain ⟨chain', hchain', hfound', -⟩ := hclass _ mem'
    obtain rfl := Option.some.inj (read.symm.trans hchain)
    obtain rfl := Option.some.inj (read'.symm.trans hchain')
    exact h (hfound.trans hfound'.symm)
  | flawed mem read found h =>
    obtain ⟨chain, hchain, hfound, hsite⟩ := hclass _ mem
    obtain rfl := Option.some.inj (read.symm.trans hchain)
    obtain rfl := Option.some.inj (found.symm.trans hfound)
    exact h (validate_eq_ok.mp hvalid _ hsite)
  | refused mem read found h =>
    obtain ⟨chain, hchain, hfound, hsite⟩ := hclass _ mem
    obtain rfl := Option.some.inj (read.symm.trans hchain)
    obtain rfl := Option.some.inj (found.symm.trans hfound)
    obtain ⟨hallowed, planned, hplanned⟩ := (exists_planSelected_iff hf hsites).mp ⟨plan, hplan⟩
    obtain ⟨alone, halone⟩ := (exists_planSelected_iff hf (found_singleton (hsites.found _ hsite))).mpr
      ⟨hallowed, editsFor_alone hplanned hsite⟩
    cases halone.symm.trans h

/-- What a conversion that did nothing answers. -/
structure Untouched (text : String) (answer : Report × String) : Prop where
  text : answer.2 = text
  chains : answer.1.chains = 0
  summary : answer.1.summary = ""
  reason : answer.1.reason.isSome = true

theorem convert_of_turnedDown (h : TurnedDown p selection target) :
    Untouched p.file.source (p.convert selection target) ∧ (p.convert selection target).1.outcome = .rejected := by
  cases h with
  | selecting h =>
    simp only [Planner.convert, h]
    exact ⟨⟨rfl, rfl, rfl, rfl⟩, rfl⟩
  | validating selects h =>
    simp only [Planner.convert, selects, h]
    exact ⟨⟨rfl, rfl, rfl, rfl⟩, rfl⟩
  | planning selects valid h =>
    simp only [Planner.convert, selects, valid, h]
    exact ⟨⟨rfl, rfl, rfl, rfl⟩, rfl⟩

theorem convert_of_planned {result : String} (hplan : p.plan selection target = .ok plan)
    (hresult : plan.apply p.file.source = .ok result) : ∃ selected, select p.file selection = .ok selected ∧
      p.convert selection target =
        (⟨.converted, some selected.dialect, target, selected.sites.length, plan.summary, none⟩, result) := by
  obtain ⟨selected, hselect, hvalid, hplan⟩ := plan_eq_ok.mp hplan
  exact ⟨selected, hselect, by simp only [Planner.convert, hselect, hvalid, hplan, hresult]⟩

theorem preview_of_apply {text result : String} (h : plan.apply text = .ok result) :
    plan.preview text = .ok result := by
  unfold Plan.apply at h
  dsimp only at h
  split at h
  case isTrue => exact h
  case isFalse => cases h

theorem every_plan_applies (f : File) (hf : f.Regular) (selection : Selection) (target : Target) (policy : Policy)
    (base : String) (wanted : Option Stubbing.ThrowForm) (method : String) :
    let p : Planner := ⟨f, policy, base⟩
    Applicable f (p.plan selection target) ∧ Applicable f (p.planMerge selection wanted) ∧
      Applicable f (p.planThrowToggle selection) ∧ Applicable f (Creation.planToField f selection) ∧
      Applicable f (Creation.planToCall f selection method) ∧ Applicable f (Creation.planExpand f selection) ∧
      (p.convert selection target).1.outcome ≠ .failed := by
  intro p
  have hp : p.file.Regular := hf
  refine ⟨applicable_plan hp selection target, applicable_planMerge hp selection wanted,
    applicable_planThrowToggle hp selection, Creation.applicable_planToField hf selection,
    Creation.applicable_planToCall hf selection method, Creation.applicable_planExpand hf selection, ?_⟩
  rcases turnedDown_or_planned hp selection target with h | ⟨plan, result, hplan, hresult⟩
  · rw [(convert_of_turnedDown h).2]
    decide
  · obtain ⟨selected, -, hconvert⟩ := convert_of_planned hplan hresult
    rw [hconvert]
    exact (show Outcome.converted ≠ .failed by decide)

theorem every_plan_applies_at_caret :
    let text := "import org.mockito.*;class T\x7b\x7bMockito.when(a.b(1)).thenReturn(2);\x7d\x7d"
    let p : Planner := ⟨File.read text, ⟨none⟩, "order"⟩
    p.file.Regular ∧ (∃ plan result, p.plan (.caret 40) (.stubbing .bddWill) = .ok plan ∧ plan.apply text = .ok result) ∧
      (convert text (.caret 40) (.stubbing .bddWill) ⟨none⟩ "order").1.outcome ≠ .failed := by
  intro text p
  have hf : p.file.Regular := (File.read_sound text).regular
  have hcomputed : (p.plan (.caret 40) (.stubbing .bddWill)).isOk = true := by decide +kernel
  obtain ⟨happlicable, -, -, -, -, -, hconvert⟩ :=
    every_plan_applies p.file hf (.caret 40) (.stubbing .bddWill) ⟨none⟩ "order" none ""
  refine ⟨hf, ?_, hconvert⟩
  cases hplan : p.plan (.caret 40) (.stubbing .bddWill) with
  | error failure =>
    rw [hplan] at hcomputed
    cases hcomputed
  | ok plan =>
    obtain ⟨result, hresult⟩ := happlicable.applies plan hplan
    exact ⟨plan, result, rfl, File.source_read text ▸ hresult⟩

theorem convert_all_or_nothing (text : String) (selection : Selection) (target : Target) (policy : Policy)
    (base : String) :
    let p : Planner := ⟨File.read text, policy, base⟩
    let answer := convert text selection target policy base
    (∀ plan result, p.plan selection target = .ok plan → plan.preview text = .ok result →
      ∃ selected, select p.file selection = .ok selected ∧
        answer = (⟨.converted, some selected.dialect, target, selected.sites.length, plan.summary, none⟩, result)) ∧
    ((∀ plan result, p.plan selection target = .ok plan → plan.preview text ≠ .ok result) →
      Untouched text answer ∧ (answer.1.outcome = .rejected ↔ TurnedDown p selection target) ∧
        (answer.1.outcome = .failed ↔ ¬ TurnedDown p selection target)) ∧
    ∀ span, selection = .range span → Unfit p target span →
      Untouched text answer ∧ answer.1.outcome = .rejected := by
  intro p answer
  have hf : p.file.Regular := (File.read_sound text).regular
  have hsource : p.file.source = text := File.source_read text
  refine ⟨fun plan result hplan hpreview => ?_, fun hnone => ?_, fun span hspan hunfit => ?_⟩
  · obtain ⟨result', hresult⟩ := (applicable_plan hf selection target).applies plan hplan
    obtain rfl := Except.ok.inj ((preview_of_apply hresult).symm.trans (hsource.symm ▸ hpreview))
    exact convert_of_planned hplan hresult
  · have hdown : TurnedDown p selection target := by
      refine (turnedDown_or_planned hf selection target).resolve_right ?_
      rintro ⟨plan, result, hplan, hresult⟩
      rw [hsource] at hresult
      exact hnone plan result hplan (preview_of_apply hresult)
    obtain ⟨huntouched, hrejected⟩ := convert_of_turnedDown hdown
    rw [hsource] at huntouched
    refine ⟨huntouched, iff_of_true hrejected hdown, iff_of_false (fun hfailed => ?_) (not_not_intro hdown)⟩
    cases hrejected.symm.trans hfailed
  · subst hspan
    obtain ⟨huntouched, hrejected⟩ := convert_of_turnedDown (turnedDown_of_unfit hf hunfit)
    rw [hsource] at huntouched
    exact ⟨huntouched, hrejected⟩

theorem convert_all_or_nothing_flawed_statement :
    let text :=
      "import org.mockito.*;class T\x7b\x7bMockito.when(a.b(1)).thenReturn(2);Mockito.when(c.d());\x7d\x7d"
    let answer := convert text (.range ⟨30, 85⟩) (.stubbing .bddGiven) ⟨none⟩ "order"
    Unfit ⟨File.read text, ⟨none⟩, "order"⟩ (.stubbing .bddGiven) ⟨30, 85⟩ ∧
      Untouched text answer ∧ answer.1.outcome = .rejected := by
  intro text answer
  have hcomputed : ((File.read text).statementsIn ⟨30, 85⟩).any (fun statement =>
      (chainOfStatement? (File.read text) statement).any fun chain =>
        (classify? chain).any fun dialect => (dialect.flaw? chain).isSome) = true := by
    decide +kernel
  obtain ⟨statement, hstatement, hany⟩ := List.any_eq_true.mp hcomputed
  obtain ⟨chain, hread, hany⟩ := (Option.any_eq_true _ _).mp hany
  obtain ⟨dialect, hfound, hflaw⟩ := (Option.any_eq_true _ _).mp hany
  have hunfit : Unfit ⟨File.read text, ⟨none⟩, "order"⟩ (.stubbing .bddGiven) ⟨30, 85⟩ :=
    .flawed hstatement hread hfound (Option.isSome_iff_ne_none.mp hflaw)
  exact ⟨hunfit, (convert_all_or_nothing text _ _ _ _).2.2 _ rfl hunfit⟩

end MockDialect.Conversion
