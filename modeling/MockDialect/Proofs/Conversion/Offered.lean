import MockDialect.Proofs.Conversion.Outcome

namespace MockDialect.Conversion

open Chain Recognition Source

theorem nodup_targetsOf (dialect : Dialect) : (targetsOf dialect).Nodup := by
  cases dialect with
  | stubbing d => cases d <;> decide
  | verification d => cases d <;> decide

theorem convertStubbing_self (chain : Chain) (d : Stubbing.Dialect) :
    convertStubbing chain d d = .error (.notATarget (.stubbing d) (.stubbing d)) := by
  rw [convertStubbing, if_pos rfl]
  rfl

theorem convertVerification_of_not_mem {source : Verification.Dialect} {goal : Verification.Target}
    (h : goal ∉ source.targets) (f : File) (sites : List Site) (base : String) :
    convertVerification f sites source goal base =
      .error (.notATarget (.verification source) (.verification goal)) := by
  have hcontains : source.targets.contains goal = false := by simpa using h
  rw [convertVerification, hcontains]
  rfl

variable {p : Planner} {selection : Selection} {selected : Selected} {target : Target}

theorem editsFor_of_not_mem (hsites : selected.sites ≠ []) (h : target ∉ targetsOf selected.dialect) :
    p.editsFor selected target = .error (.notATarget selected.dialect target) := by
  obtain ⟨dialect, sites, bulk⟩ := selected
  cases dialect with
  | stubbing source =>
    cases target with
    | verification goal => rfl
    | stubbing goal =>
      -- every dialect but the chain's own is a target
      have hgoal : goal ∉ source.targets := fun hmem => h (List.mem_map_of_mem hmem)
      obtain rfl : goal = source := not_not.mp fun hne => hgoal (Stubbing.Dialect.mem_targets_iff.mpr hne)
      obtain ⟨site, rest, rfl⟩ := List.exists_cons_of_ne_nil hsites
      simp only [Planner.editsFor, List.mapM_cons, convertStubbing_self]
      rfl
  | verification source =>
    cases target with
    | stubbing goal => rfl
    | verification goal =>
      have hgoal : goal ∉ source.targets := fun hmem => h (List.mem_map_of_mem hmem)
      exact convertVerification_of_not_mem hgoal p.file sites p.inOrderBase

theorem planSelected_of_not_mem (hsites : selected.sites ≠ []) (h : target ∉ targetsOf selected.dialect) :
    p.planSelected selected target = .error (.unavailable
      (if p.policy.allows target.family then .notATarget selected.dialect target
        else .targetNotAllowed target)) := by
  rw [planSelected_eq, editsFor_of_not_mem hsites h]
  split <;> rfl

theorem plan_of_selected (hselect : select p.file selection = .ok selected) (hvalid : validate selected = .ok ()) :
    p.plan selection target = p.planSelected selected target := by
  rw [Planner.plan, hselect]
  change (orUnavailable (validate selected) >>= fun _ => _) = _
  rw [hvalid]
  rfl

theorem exists_of_plan_isOk (h : (p.plan selection target).isOk = true) :
    ∃ selected, select p.file selection = .ok selected ∧ validate selected = .ok () := by
  cases hplan : p.plan selection target with
  | error failure =>
    rw [hplan] at h
    cases h
  | ok plan =>
    obtain ⟨selected, hselect, hvalid, -⟩ := plan_eq_ok.mp hplan
    exact ⟨selected, hselect, hvalid⟩

theorem availableTargets_of_selected (hselect : select p.file selection = .ok selected)
    (hvalid : validate selected = .ok ()) : p.availableTargets selection =
      (targetsOf selected.dialect).filter fun target => (p.plan selection target).isOk := by
  simp only [Planner.availableTargets, hselect, hvalid, plan_of_selected hselect hvalid]

theorem availableTargets_sublist (hselect : select p.file selection = .ok selected) :
    (p.availableTargets selection).Sublist (targetsOf selected.dialect) := by
  cases hvalid : validate selected with
  | error rejection => simp only [Planner.availableTargets, hselect, hvalid, List.nil_sublist]
  | ok =>
    rw [availableTargets_of_selected hselect hvalid]
    exact List.filter_sublist

theorem nodup_availableTargets (p : Planner) (selection : Selection) : (p.availableTargets selection).Nodup := by
  cases hselect : select p.file selection with
  | error rejection => simp only [Planner.availableTargets, hselect, List.nodup_nil]
  | ok selected => exact (nodup_targetsOf selected.dialect).sublist (availableTargets_sublist hselect)

theorem mem_availableTargets : target ∈ p.availableTargets selection ↔ (p.plan selection target).isOk = true := by
  constructor
  · intro hmem
    cases hselect : select p.file selection with
    | error rejection => simp [Planner.availableTargets, hselect] at hmem
    | ok selected =>
      cases hvalid : validate selected with
      | error rejection => simp [Planner.availableTargets, hselect, hvalid] at hmem
      | ok =>
        rw [availableTargets_of_selected hselect hvalid] at hmem
        exact (List.mem_filter.mp hmem).2
  · intro hok
    obtain ⟨selected, hselect, hvalid⟩ := exists_of_plan_isOk hok
    rw [availableTargets_of_selected hselect hvalid]
    refine List.mem_filter.mpr ⟨?_, hok⟩
    by_contra hmem
    rw [plan_of_selected hselect hvalid, planSelected_of_not_mem (select_ne_nil hselect) hmem] at hok
    cases hok

theorem menu_lists_exactly_what_can_be_planned (p : Planner) (selection : Selection) :
    (∀ target, target ∈ p.availableTargets selection ↔ (p.plan selection target).isOk = true) ∧
      (p.availableTargets selection).Nodup ∧
      ∀ selected, select p.file selection = .ok selected →
        (p.availableTargets selection).Sublist (targetsOf selected.dialect) ∧
          (validate selected = .ok () → ∀ target, target ∉ targetsOf selected.dialect →
            p.plan selection target = .error (.unavailable
              (if p.policy.allows target.family then .notATarget selected.dialect target
                else .targetNotAllowed target))) := by
  refine ⟨fun target => mem_availableTargets, nodup_availableTargets p selection, fun selected hselect =>
    ⟨availableTargets_sublist hselect, fun hvalid target hmem => ?_⟩⟩
  rw [plan_of_selected hselect hvalid]
  exact planSelected_of_not_mem (select_ne_nil hselect) hmem

theorem menu_lists_exactly_what_can_be_planned_for_two_statements :
    let text :=
      "import org.mockito.*;class T\x7b\x7bMockito.when(a.b(1)).thenReturn(2);Mockito.when(c.d()).thenReturn(3);\x7d\x7d"
    let p : Planner := ⟨File.read text, ⟨some .mockito⟩, "order"⟩
    ∃ selected, select p.file (.range ⟨30, 100⟩) = .ok selected ∧ validate selected = .ok () ∧
      selected.dialect = .stubbing .mockitoWhen ∧ selected.sites.length = 2 ∧
      (p.plan (.range ⟨30, 100⟩) (.stubbing .mockitoDo)).isOk = true ∧
      p.plan (.range ⟨30, 100⟩) (.stubbing .mockitoWhen) =
        .error (.unavailable (.notATarget (.stubbing .mockitoWhen) (.stubbing .mockitoWhen))) ∧
      p.plan (.range ⟨30, 100⟩) (.verification .thenShould) =
        .error (.unavailable (.targetNotAllowed (.verification .thenShould))) := by
  intro text p
  have hcomputed : (select p.file (.range ⟨30, 100⟩)).toOption.any (fun selected =>
      (validate selected).isOk && selected.dialect == .stubbing .mockitoWhen && selected.sites.length == 2 &&
        (p.availableTargets (.range ⟨30, 100⟩)).contains (.stubbing .mockitoDo)) = true := by
    decide +kernel
  obtain ⟨selected, hselect, hcomputed⟩ := (Option.any_eq_true _ _).mp hcomputed
  simp only [Bool.and_eq_true, beq_iff_eq, List.contains_iff_mem] at hcomputed
  obtain ⟨⟨⟨hvalid, hdialect⟩, hlength⟩, hoffered⟩ := hcomputed
  have hvalid : validate selected = .ok () := by
    cases h : validate selected with
    | error rejection =>
      rw [h] at hvalid
      cases hvalid
    | ok => rfl
  obtain ⟨hmem, -, hselected⟩ := menu_lists_exactly_what_can_be_planned p (.range ⟨30, 100⟩)
  have hrefused := (hselected selected (eq_ok_of_toOption hselect)).2 hvalid
  rw [hdialect] at hrefused
  exact ⟨selected, eq_ok_of_toOption hselect, hvalid, hdialect, hlength, (hmem _).mp hoffered,
    hrefused (.stubbing .mockitoWhen) (by decide), hrefused (.verification .thenShould) (by decide)⟩

end MockDialect.Conversion
