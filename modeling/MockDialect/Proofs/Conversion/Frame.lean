import MockDialect.Proofs.Conversion.Outcome
import MockDialect.Proofs.Edit.Kept

namespace MockDialect.Conversion

open Chain Edit Java Recognition Source Text

def rewrittenPart? (dialect : Dialect) (chain : Chain) : Option Span :=
  match dialect with
  | .stubbing _ => some chain.span
  | .verification d => do
    let head ← d.head? chain
    let last ← chain.get? (head.calls - 1)
    return ⟨chain.span.start, last.span.stop⟩

/-- Whether the byte at an offset is outside of all that is spelled anew. -/
def Selected.isOutside (selected : Selected) (offset : Nat) : Bool :=
  selected.sites.all fun site => (rewrittenPart? selected.dialect site.chain).all fun part =>
    offset < part.start || part.stop ≤ offset

/-- An edit that gives a site its new text. -/
structure Site.Rewritten (dialect : Dialect) (site : Site) (e : Edit) : Prop where
  part : rewrittenPart? dialect site.chain = some e.span
  starts : e.span.start = site.chain.span.start
  nonempty : e.span.start < e.span.stop
  stops : e.span.stop ≤ site.chain.span.stop

/-- The insertion, if any, of an `InOrder` for some sites. -/
def Declares (f : File) (sites : List Site) (declaration : Option Edit) : Prop :=
  ∀ e ∈ declaration, (∃ offset, e.span = .point offset) ∧
    ∃ first name args, sites.head? = some first ∧ e = declareInOrder f first.statementStart name args

/-- The insertion, if any, of imports. -/
def AddsImports (f : File) (imports : Option Edit) : Prop :=
  ∀ e ∈ imports, (∃ offset, e.span = .point offset) ∧ ∃ names, planImports f.imports names = some e

variable {f : File} {p : Planner} {selected : Selected} {target : Target} {dialect : Dialect} {site : Site}

theorem rewrittenPart?_verification {source : Verification.Dialect} {chain : Chain} {part : Span} :
    rewrittenPart? (.verification source) chain = some part ↔ ∃ head last, source.head? chain = some head ∧
      chain.get? (head.calls - 1) = some last ∧ part = ⟨chain.span.start, last.span.stop⟩ := by
  constructor
  · intro h
    obtain ⟨head, hhead, h⟩ := Option.bind_eq_some_iff.mp h
    obtain ⟨last, hlast, h⟩ := Option.bind_eq_some_iff.mp h
    exact ⟨head, last, hhead, hlast, (Option.some.inj h).symm⟩
  · rintro ⟨head, last, hhead, hlast, rfl⟩
    simp [rewrittenPart?, hhead, hlast]

theorem Site.Found.first (hf : f.Regular) (h : site.Found f) (hclass : classify? site.chain = some dialect) :
    ∃ first ∈ site.chain.calls, first.span.start < first.span.stop ∧
      ∀ call ∈ site.chain.calls, first.span.stop ≤ call.span.stop := by
  obtain ⟨first, hfirst, hname⟩ := Dialect.name_of_begins (classify?_eq_some_iff.mp hclass)
  obtain ⟨c, hc, -, hchain⟩ := h.chain
  obtain ⟨-, hbefore⟩ := chainOf_before hf hc
  obtain ⟨rest, hcalls⟩ := List.head?_eq_some_iff.mp hfirst
  rw [← hchain, hcalls] at hbefore
  have hmem : first ∈ site.chain.calls := hcalls ▸ .head rest
  obtain ⟨l, hl, -, hread⟩ := exists_link hc (hchain ▸ hmem)
  refine ⟨first, hmem, lt_of_readCall? (hl.placed hf.placed) hread hname, fun call hcall => ?_⟩
  rw [hcalls] at hcall
  rcases List.mem_cons.mp hcall with rfl | hcall
  · exact Nat.le_refl _
  · have hlater := List.rel_of_pairwise_cons hbefore hcall
    exact Nat.le_trans hlater.name hlater.right.name.2

theorem Site.Found.rewritten (hf : f.Regular) (h : site.Found f) (hclass : classify? site.chain = some dialect)
    {e : Edit} (hpart : rewrittenPart? dialect site.chain = some e.span) : site.Rewritten dialect e := by
  obtain ⟨first, hmem, hlt, hreach⟩ := h.first hf hclass
  obtain ⟨-, hstart, hstop⟩ := h.call hf hmem
  cases dialect with
  | stubbing =>
    obtain hspan : site.chain.span = e.span := Option.some.inj hpart
    exact ⟨hpart, hspan ▸ rfl, by rw [← hspan]; omega, hspan ▸ Nat.le_refl _⟩
  | verification d =>
    obtain ⟨head, last, -, hlast, hspan⟩ := rewrittenPart?_verification.mp hpart
    have hlast := List.mem_of_getElem? hlast
    have hend := hreach last hlast
    refine ⟨hpart, by rw [hspan], ?_, ?_⟩
    · rw [hspan]
      exact Nat.lt_of_le_of_lt hstart (Nat.lt_of_lt_of_le hlt hend)
    · rw [hspan]
      exact (h.call hf hlast).2.2

theorem rewrittenPart?_of_convertStubbing {chain : Chain} {source goal : Stubbing.Dialect} {e : Edit}
    (h : convertStubbing chain source goal = .ok e) : rewrittenPart? (.stubbing source) chain = some e.span := by
  obtain ⟨-, -, actions, stubbed, mock, -, -, -, -, -, rfl⟩ := convertStubbing_eq_ok.mp h
  rfl

theorem rewrittenPart?_of_replaceHead {source : Verification.Dialect} {goal : Verification.Target}
    {added : Option String} {head : Verification.Head} {e : Edit} (hhead : source.head? site.chain = some head)
    (h : replaceHead source goal added site head = .ok e) :
    rewrittenPart? (.verification source) site.chain = some e.span := by
  obtain ⟨text, last, -, hlast, rfl⟩ := replaceHead_eq_ok.mp h
  exact rewrittenPart?_verification.mpr ⟨head, last, hhead, hlast, rfl⟩

theorem declares_declarationFor (hsites : Found f selected.sites) (args : List String) (added : Option String) :
    ∃ declaration : Option Edit, declarationFor f args added selected.sites = declaration.toList ∧
      Declares f selected.sites declaration := by
  rcases declarationFor_cases f args added selected.sites with hnone | ⟨first, rest, name, hrest, hone⟩
  · exact ⟨none, hnone, nofun⟩
  · refine ⟨some _, hone, fun e he => ?_⟩
    obtain rfl := Option.some.inj he
    have hfirst := hsites.found first (hrest ▸ .head rest)
    obtain ⟨offset, hspan, -⟩ := span_declareInOrder f first.statementStart name args hfirst.cut
    exact ⟨⟨offset, hspan⟩, first, name, args, by rw [hrest]; rfl, rfl⟩

theorem Replaced.rewritten (hf : f.Regular) {sites : List Site} (hsites : Found f sites)
    {source : Verification.Dialect} (hclass : ∀ site ∈ sites, classify? site.chain = some (.verification source))
    {goal : Verification.Target} {base : String} {heads : List Verification.Head} {edits : List Edit}
    (h : Replaced f sites source goal base heads edits) :
    List.Forall₂ (Site.Rewritten (.verification source)) sites edits := by
  rw [← h.map_fst, List.forall₂_map_left_iff]
  refine forall₂_of_map_eq (mapM_eq_ok.mp h.replaced) fun x hx e he => ?_
  have hsite := (List.of_mem_zip hx).1
  have hpart := rewrittenPart?_of_replaceHead (h.head_of_zip x hx) he
  exact (hsites.found x.1 hsite).rewritten hf (hclass x.1 hsite) hpart

theorem editsFor_rewritten (hf : p.file.Regular) (hsites : Found p.file selected.sites)
    (hclass : ∀ site ∈ selected.sites, classify? site.chain = some selected.dialect) {planned : Planned}
    (h : p.editsFor selected target = .ok planned) :
    ∃ (declaration : Option Edit) (edits : List Edit), planned.edits = declaration.toList ++ edits ∧
      Declares p.file selected.sites declaration ∧
      List.Forall₂ (Site.Rewritten selected.dialect) selected.sites edits := by
  obtain ⟨dialect, sites, bulk⟩ := selected
  cases dialect with
  | stubbing source =>
    cases target with
    | verification => cases h
    | stubbing goal =>
      obtain ⟨edits, hedits, h⟩ := bind_eq_ok.mp h
      obtain rfl := Except.ok.inj h
      refine ⟨none, edits, rfl, nofun, forall₂_of_map_eq (mapM_eq_ok.mp hedits) fun site hsite e he => ?_⟩
      exact (hsites.found site hsite).rewritten hf (hclass site hsite) (rewrittenPart?_of_convertStubbing he)
  | verification source =>
    cases target with
    | stubbing => cases h
    | verification goal =>
      obtain ⟨heads, edits, args, hreplaced, hplanned⟩ := replaced_of_convertVerification h
      obtain ⟨declaration, hdeclaration, hdeclares⟩ := declares_declarationFor hsites args
        (addedInOrder p.file goal p.inOrderBase heads)
      exact ⟨declaration, edits, by rw [hplanned, hdeclaration], hdeclares, hreplaced.rewritten hf hsites hclass⟩

theorem addsImports_planImports (f : File) (names : List String) : AddsImports f (planImports f.imports names) :=
  fun _ he => ⟨⟨_, span_of_planImports he⟩, names, he⟩

theorem edits_of_planOf {revision : UInt64} {edits : List Edit} {summary : String} {plan : Plan}
    (h : planOf revision edits summary = .ok plan) : plan.edits = sortEdits edits := by
  rw [planOf] at h
  split at h
  case h_1 made hmade =>
    obtain rfl := Except.ok.inj h
    exact edits_of_make hmade
  case h_2 => cases h

structure Drafted (f : File) (selected : Selected) (declaration imports : Option Edit) (edits : List Edit) : Prop where
  compatible : Compatible f.text (declaration.toList ++ edits ++ imports.toList)
  declares : Declares f selected.sites declaration
  imported : AddsImports f imports
  rewritten : List.Forall₂ (Site.Rewritten selected.dialect) selected.sites edits

theorem planSelected_drafted (hf : p.file.Regular) {selection : Selection} {plan : Plan}
    (hselect : select p.file selection = .ok selected) (h : p.planSelected selected target = .ok plan) :
    ∃ declaration imports edits, Drafted p.file selected declaration imports edits ∧
      plan.edits = sortEdits (declaration.toList ++ edits ++ imports.toList) := by
  have hsites := select_found hf hselect
  rw [planSelected_eq] at h
  split at h
  case isFalse => cases h
  case isTrue =>
    split at h
    case h_2 => cases h
    case h_1 planned hplanned =>
      obtain ⟨declaration, edits, hedits, hdeclares, hrow⟩ :=
        editsFor_rewritten hf hsites (select_classified hselect) hplanned
      obtain ⟨hcompatible, hapart⟩ := editsFor_compatible hf hsites hplanned
      have hall := compatible_withImports hf hcompatible hapart planned.imports
      rw [hedits] at hall h
      exact ⟨declaration, _, edits, ⟨hall, hdeclares, addsImports_planImports p.file planned.imports, hrow⟩,
        edits_of_planOf h⟩

section

variable {declaration imports : Option Edit} {edits : List Edit}

theorem Drafted.replaces_inserted (h : Drafted f selected declaration imports edits) :
    (∀ e ∈ declaration.toList, e.replaces = false) ∧ ∀ e ∈ imports.toList, e.replaces = false := by
  have hpoint : ∀ insertion : Option Edit, (∀ e ∈ insertion, ∃ offset, e.span = .point offset) →
      ∀ e ∈ insertion.toList, e.replaces = false := by
    intro insertion hinsertion e he
    obtain ⟨offset, hspan⟩ := hinsertion e (Option.mem_toList.mp he)
    exact replaces_of_point hspan
  exact ⟨hpoint declaration fun e he => (h.declares e he).1, hpoint imports fun e he => (h.imported e he).1⟩

theorem Drafted.replaces_edits (h : Drafted f selected declaration imports edits) :
    ∀ e ∈ edits, e.replaces = true := by
  intro e he
  obtain ⟨_, -, hrewritten⟩ := exists_of_forall₂ h.rewritten e he
  exact replaces_iff.mpr hrewritten.nonempty

theorem Drafted.filter_replaces (h : Drafted f selected declaration imports edits) :
    (declaration.toList ++ edits ++ imports.toList).filter replaces = edits := by
  have hdeclaration : declaration.toList.filter replaces = [] :=
    List.filter_eq_nil_iff.mpr fun e he => by simp [h.replaces_inserted.1 e he]
  have himports : imports.toList.filter replaces = [] :=
    List.filter_eq_nil_iff.mpr fun e he => by simp [h.replaces_inserted.2 e he]
  rw [List.filter_append, List.filter_append, hdeclaration, himports, List.filter_eq_self.mpr h.replaces_edits,
    List.nil_append, List.append_nil]

theorem Drafted.filter_inserts (h : Drafted f selected declaration imports edits) :
    (declaration.toList ++ edits ++ imports.toList).filter (!·.replaces) =
      declaration.toList ++ imports.toList := by
  have hedits : edits.filter (!·.replaces) = [] :=
    List.filter_eq_nil_iff.mpr fun e he => by simp [h.replaces_edits e he]
  rw [List.filter_append, List.filter_append, hedits, List.append_nil,
    List.filter_eq_self.mpr fun e he => by simp [h.replaces_inserted.1 e he],
    List.filter_eq_self.mpr fun e he => by simp [h.replaces_inserted.2 e he]]

theorem Drafted.apart (h : Drafted f selected declaration imports edits) (hsites : Found f selected.sites) :
    edits.Pairwise fun a b => a.span.stop ≤ b.span.start := by
  refine pairwise_of_forall₂ h.rewritten hsites.apart fun a b x y hx hy hab => ?_
  rw [hy.starts]
  exact Nat.le_trans hx.stops hab

theorem Drafted.isOutside (h : Drafted f selected declaration imports edits) :
    ∀ e ∈ declaration.toList ++ edits ++ imports.toList, ∀ n, e.span.start ≤ n → n < e.span.stop →
      selected.isOutside n = false := by
  intro e he n hstart hstop
  have hedit : e ∈ edits := by
    rw [← h.filter_replaces]
    exact List.mem_filter.mpr ⟨he, replaces_iff.mpr (Nat.lt_of_le_of_lt hstart hstop)⟩
  obtain ⟨site, hsite, hrewritten⟩ := exists_of_forall₂ h.rewritten e hedit
  rw [← Bool.not_eq_true, Selected.isOutside, List.all_eq_true]
  intro hall
  have hout := hall site hsite
  simp only [hrewritten.part, Option.all_some, Bool.or_eq_true, decide_eq_true_eq] at hout
  omega

end

/-- What a plan for a selection touches, and that the rest is in the text that it makes. -/
structure Framed (f : File) (selection : Selection) (target : Target) (selected : Selected) (plan : Plan) : Prop where
  selects : select f selection = .ok selected
  rewritten : List.Forall₂ (Site.Rewritten selected.dialect) selected.sites (plan.edits.filter replaces)
  apart : (plan.edits.filter replaces).Pairwise fun a b => a.span.stop ≤ b.span.start
  inserted : ∃ declaration imports : Option Edit, Declares f selected.sites declaration ∧ AddsImports f imports ∧
    (plan.edits.filter (!·.replaces)).Perm (declaration.toList ++ imports.toList)
  verifies : ∀ goal, target = .verification goal → ∃ source, selected.dialect = .verification source ∧
    List.Forall₂ (fun site e => ∃ head last, source.head? site.chain = some head ∧
      site.chain.get? (head.calls - 1) = some last ∧ e.span.stop = last.span.stop)
      selected.sites (plan.edits.filter replaces)
  statements : ∀ span, selection = .range span →
    (f.statementsIn span).Pairwise (fun a b => a.span.stop ≤ b.span.start) ∧
      List.Forall₂ (fun statement site => chainOfStatement? f statement = some site.chain ∧
        site.statementStart = statement.span.start) (f.statementsIn span) selected.sites
  kept : ∃ result, plan.apply f.source = .ok result ∧
    (kept selected.isOutside 0 f.source.toList).Sublist result.toList

theorem verification_of_editsFor {planned : Planned} {goal : Verification.Target}
    (h : p.editsFor selected (.verification goal) = .ok planned) :
    ∃ source, selected.dialect = .verification source := by
  obtain ⟨dialect, sites, bulk⟩ := selected
  cases dialect with
  | stubbing source => cases h
  | verification source => exact ⟨source, rfl⟩

theorem conversion_touches_only_selected (f : File) (hf : f.Regular) (policy : Policy) (base : String)
    (selection : Selection) (target : Target) {plan : Plan}
    (h : Planner.plan ⟨f, policy, base⟩ selection target = .ok plan) :
    ∃ selected, Framed f selection target selected plan := by
  have hp : (⟨f, policy, base⟩ : Planner).file.Regular := hf
  obtain ⟨result, hresult⟩ := (applicable_plan hp selection target).applies plan h
  obtain ⟨selected, hselect, -, hplan⟩ := plan_eq_ok.mp h
  have hsites := select_found hf hselect
  obtain ⟨declaration, imports, edits, hdrafted, hedits⟩ := planSelected_drafted hp hselect hplan
  have hreplaced : plan.edits.filter replaces = edits := by
    have hrow := hdrafted.apart hsites
    rw [hedits, filter_replaces_sortEdits hdrafted.compatible (by rwa [hdrafted.filter_replaces]),
      hdrafted.filter_replaces]
  refine ⟨selected, hselect, hreplaced ▸ hdrafted.rewritten, hreplaced ▸ hdrafted.apart hsites,
    ⟨declaration, imports, hdrafted.declares, hdrafted.imported, ?_⟩, ?_, ?_, result, hresult, ?_⟩
  · rw [hedits, ← hdrafted.filter_inserts]
    exact (Order.sortBy_perm _ _).filter _
  · rintro goal rfl
    obtain ⟨-, planned, hplanned⟩ := (exists_planSelected_iff hp hsites).mp ⟨plan, hplan⟩
    obtain ⟨source, hsource⟩ := verification_of_editsFor hplanned
    refine ⟨source, hsource, ?_⟩
    have hrewritten := hdrafted.rewritten
    rw [hsource, ← hreplaced] at hrewritten
    refine hrewritten.imp fun site e he => ?_
    obtain ⟨head, last, hhead, hlast, hspan⟩ := rewrittenPart?_verification.mp he.part
    exact ⟨head, last, hhead, hlast, by rw [hspan]⟩
  · rintro span rfl
    refine ⟨(statementsIn_spec hf span).2, forall₂_of_map_eq (selectRange_eq_ok hselect) fun s _ site hread => ?_⟩
    obtain ⟨chain, hchain, -, rfl⟩ := readStatement_eq_ok hread
    exact ⟨hchain, rfl⟩
  · refine kept_sublist_of_preview (preview_of_apply hresult) fun e he => ?_
    rw [hedits] at he
    exact hdrafted.isOutside e ((Order.sortBy_perm _ _).mem_iff.mp he)

theorem conversion_touches_only_selected_added_order :
    let text := "import org.mockito.Mockito;class T\x7b\x7bMockito.verify(a).b();Mockito.verify(c).d();\x7d\x7d"
    let p : Planner := ⟨File.read text, ⟨none⟩, "order"⟩
    ∃ plan selected, p.plan (.range ⟨36, 80⟩) (.verification .inOrderVerify) = .ok plan ∧
      p.file.Regular ∧ plan.edits.length = 4 ∧ selected.sites.length = 2 ∧
      Framed p.file (.range ⟨36, 80⟩) (.verification .inOrderVerify) selected plan := by
  intro text p
  have hcomputed : ((p.plan (.range ⟨36, 80⟩) (.verification .inOrderVerify)).toOption.any
      fun plan => plan.edits.length == 4 && (plan.edits.filter replaces).length == 2) = true := by
    decide +kernel
  obtain ⟨plan, hplan, hchecked⟩ := (Option.any_eq_true _ _).mp hcomputed
  simp only [Bool.and_eq_true, beq_iff_eq] at hchecked
  replace hplan := eq_ok_of_toOption hplan
  have hf : p.file.Regular := (File.read_sound text).regular
  obtain ⟨selected, hframed⟩ := conversion_touches_only_selected p.file hf ⟨none⟩ "order" _ _ hplan
  exact ⟨plan, selected, hplan, hf, hchecked.1, hframed.rewritten.length_eq.trans hchecked.2, hframed⟩

end MockDialect.Conversion
