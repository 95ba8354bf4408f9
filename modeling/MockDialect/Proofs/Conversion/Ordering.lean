import MockDialect.Proofs.Conversion.Frame
import MockDialect.Proofs.Conversion.Naming

namespace MockDialect.Conversion

open Api Chain Edit Recognition Source Text
open Verification (Head)

/-- The words of a head that verifies against an `InOrder`. -/
inductive SpelledAgainst (order : String) (head : Head) : Verification.Target → String → Prop where
  | verify {mock : String} (hmock : head.mock = some mock) : SpelledAgainst order head .inOrderVerify
      (order ++ ".verify(" ++ ", ".intercalate (mock :: head.mode.toList) ++ ")")
  | verifyStatic {mocked verification : String} (hmocked : head.mockedStatic = some mocked)
      (hverification : head.verification = some verification) : SpelledAgainst order head .inOrderVerifyStatic
      (order ++ ".verify(" ++ ", ".intercalate (mocked :: verification :: head.mode.toList) ++ ")")
  | should {target : Verification.Target} {mock : String} (hmock : head.mock = some mock)
      (htarget : target = .thenShouldInOrder ∨ target = .addInOrder) : SpelledAgainst order head target
      ("BDDMockito.then(" ++ mock ++ ").should(" ++ ", ".intercalate (order :: head.mode.toList) ++ ")")

/-- What a site verifies: its mock, or the class that its `MockedStatic` mocks. -/
inductive Verifies (f : File) (source : Verification.Dialect) (site : Site) (head : Head) : String → Prop where
  | mock {name : String} (hsource : source ≠ .staticVerify) (hmock : head.mock = some name) :
      Verifies f source site head name
  | mockedClass {reference cls : String} (hsource : source = .staticVerify)
      (hmocked : head.mockedStatic = some reference)
      (hclass : f.mockedClass? reference site.chain.span.start = some cls) : Verifies f source site head cls

variable {f : File} {sites : List Site} {source : Verification.Dialect} {target : Verification.Target}
  {base : String} {heads : List Head} {edits : List Edit}

theorem should_of_spell {head : Head} {order : Option String} {text : String}
    (htarget : target = .thenShouldInOrder ∨ target = .addInOrder) (h : target.spell head order = some text) :
    ∃ name, order = some name ∧ SpelledAgainst name head target text := by
  have hsame : target.spell head order = Verification.Target.addInOrder.spell head order := by
    rcases htarget with rfl | rfl <;> rfl
  rw [hsame] at h
  simp only [Verification.Target.spell] at h
  split at h
  case h_2 => cases h
  case h_1 mock name hmock =>
    obtain rfl := Option.some.inj h
    have hspelled : SpelledAgainst name head target _ := .should hmock htarget
    refine ⟨name, rfl, ?_⟩
    cases hmode : head.mode <;> simpa [hmode, String.append_assoc] using hspelled

theorem spelledAgainst_of_spell {head : Head} {order : Option String} {text : String}
    (huses : target.usesInOrder = true) (h : target.spell head order = some text) :
    ∃ name, order = some name ∧ SpelledAgainst name head target text := by
  cases target with
  | mockitoVerify | thenShould | staticVerify => cases huses
  | thenShouldInOrder => exact should_of_spell (.inl rfl) h
  | addInOrder => exact should_of_spell (.inr rfl) h
  | inOrderVerify =>
    simp only [Verification.Target.spell] at h
    split at h
    case h_2 => cases h
    case h_1 name mock hmock =>
      obtain rfl := Option.some.inj h
      have hspelled : SpelledAgainst name head .inOrderVerify _ := .verify hmock
      refine ⟨name, rfl, ?_⟩
      cases hmode : head.mode <;> simpa [hmode, String.append_assoc] using hspelled
  | inOrderVerifyStatic =>
    simp only [Verification.Target.spell] at h
    split at h
    case h_2 => cases h
    case h_1 name mocked verification hmocked hverification =>
      obtain rfl := Option.some.inj h
      have hspelled : SpelledAgainst name head .inOrderVerifyStatic _ := .verifyStatic hmocked hverification
      refine ⟨name, rfl, ?_⟩
      cases hmode : head.mode <;> simpa [hmode, String.append_assoc] using hspelled

theorem Site.Found.inOrder {site : Site} (h : site.Found f) {head : Head}
    (hhead : Verification.Dialect.inOrderVerify.head? site.chain = some head) : head.inOrder.isSome = true := by
  obtain ⟨first, hfirst, hentry⟩ :=
    Verification.Dialect.isEntry_of_begins (Verification.Dialect.begins_of_head? hhead)
  obtain ⟨c, hc, -, hchain⟩ := h.chain
  have hmem : first ∈ (chainOf f c).calls := hchain ▸ List.mem_of_head? hfirst
  obtain ⟨l, -, -, hread⟩ := exists_link hc hmem
  obtain ⟨text, htext⟩ := exists_qualifierText? hread (Verification.Dialect.opening_of_isEntry hentry).2
  rw [Verification.Dialect.inOrder_of_head? hhead, hfirst, Option.bind_some, htext]
  rfl

theorem uniform_of_checkOrder (hoffered : target ∈ Verification.Dialect.thenShould.targets)
    (huses : target.usesInOrder = true) (h : checkOrder .thenShould target heads = .ok ()) :
    (∀ head ∈ heads, head.inOrder.isSome = true) ∨ ∀ head ∈ heads, head.inOrder = none := by
  cases target with
  | inOrderVerify =>
    -- all heads agree with the first one
    simp only [checkOrder, ite_eq_left_iff, reduceCtorEq, imp_false, not_not, List.all_eq_true, beq_iff_eq] at h
    cases hfirst : heads.head?.bind (·.inOrder) with
    | none => exact .inr fun head hhead => (h head hhead).trans hfirst
    | some name => exact .inl fun head hhead => by rw [h head hhead, hfirst]; rfl
  | addInOrder =>
    simp only [checkOrder, ite_eq_right_iff, reduceCtorEq, imp_false, Bool.not_eq_true, List.any_eq_false,
      Option.isSome_eq_false_iff, Option.isNone_iff_eq_none] at h
    exact .inr h
  | mockitoVerify | thenShould | staticVerify => cases huses
  | thenShouldInOrder | inOrderVerifyStatic => simp [Verification.Dialect.targets] at hoffered

theorem Replaced.uniform (h : Replaced f sites source target base heads edits) (hsites : Found f sites)
    (huses : target.usesInOrder = true) :
    (∀ head ∈ heads, head.inOrder.isSome = true) ∨ ∀ head ∈ heads, head.inOrder = none := by
  have hread : ∀ head ∈ heads, ∃ site ∈ sites, source.head? site.chain = some head := by
    intro head hhead
    obtain ⟨site, hsite, hread⟩ := exists_of_map_eq (mapM_eq_ok.mp h.read) head hhead
    exact ⟨site, hsite, headOf_eq_ok.mp hread⟩
  cases source with
  | mockitoVerify | staticVerify =>
    refine .inr fun head hhead => ?_
    obtain ⟨site, -, hsite⟩ := hread head hhead
    exact Verification.Dialect.inOrder_of_head? hsite
  | inOrderVerify =>
    refine .inl fun head hhead => ?_
    obtain ⟨site, hsite, hread⟩ := hread head hhead
    exact (hsites.found site hsite).inOrder hread
  | inOrderVerifyStatic =>
    obtain rfl := List.mem_singleton.mp h.offered
    cases huses
  | thenShould => exact uniform_of_checkOrder h.offered huses h.ordered

theorem spelledAgainst_of_replaceHead {added : Option String} {site : Site} {head : Head} {e : Edit}
    (huses : target.usesInOrder = true) (h : replaceHead source target added site head = .ok e) :
    ∃ name, head.inOrder.or added = some name ∧ SpelledAgainst name head target e.replacement := by
  obtain ⟨text, last, htext, -, rfl⟩ := replaceHead_eq_ok.mp h
  exact spelledAgainst_of_spell huses htext

theorem Replaced.spelled (h : Replaced f sites source target base heads edits) (huses : target.usesInOrder = true) :
    List.Forall₂ (fun head e => head ∈ heads ∧ ∃ name,
      head.inOrder.or (addedInOrder f target base heads) = some name ∧
        SpelledAgainst name head target e.replacement) heads edits := by
  nth_rewrite 3 [← h.map_snd]
  rw [List.forall₂_map_left_iff]
  refine forall₂_of_map_eq (mapM_eq_ok.mp h.replaced) fun x hx e he => ?_
  exact ⟨(List.of_mem_zip hx).2, spelledAgainst_of_replaceHead huses he⟩

theorem forall₂_filterMap {α β : Type} {g : α → Option β} {xs : List α} (h : ∀ x ∈ xs, ∃ y, g x = some y) :
    List.Forall₂ (fun x y => g x = some y) xs (xs.filterMap g) := by
  induction xs with
  | nil => exact .nil
  | cons x xs ih =>
    obtain ⟨y, hy⟩ := h x (.head xs)
    rw [List.filterMap_cons_some hy]
    exact .cons hy (ih fun z hz => h z (.tail x hz))

theorem mockedClassOf_eq_ok {site : Site} {head : Head} {reference cls : String}
    (hmocked : head.mockedStatic = some reference) (h : mockedClassOf f site head = .ok cls) :
    f.mockedClass? reference site.chain.span.start = some cls := by
  rw [mockedClassOf, hmocked, Option.getD_some] at h
  split at h
  case h_1 found hfound => rw [hfound, Except.ok.inj h]
  case h_2 => cases h

theorem staticVerify_iff (hoffered : target ∈ source.targets) (huses : target.usesInOrder = true) :
    source = .staticVerify ↔ target = .inOrderVerifyStatic := by
  revert hoffered huses
  cases source <;> cases target <;> decide

theorem Replaced.exists_spelled (h : Replaced f sites source target base heads edits)
    (huses : target.usesInOrder = true) :
    ∀ x ∈ sites.zip heads, ∃ name text, SpelledAgainst name x.2 target text := by
  intro x hx
  obtain ⟨e, -, he⟩ := exists_of_mapM h.replaced x hx
  obtain ⟨name, -, hname⟩ := spelledAgainst_of_replaceHead huses he
  exact ⟨name, _, hname⟩

theorem Replaced.verifies_classes (h : Replaced f sites source .inOrderVerifyStatic base heads edits)
    {classes : List String} (hclasses : (sites.zip heads).mapM (fun x => mockedClassOf f x.1 x.2) = .ok classes) :
    List.Forall₂ (fun x cls => Verifies f source x.1 x.2 cls) (sites.zip heads) classes := by
  have hsource := (staticVerify_iff h.offered rfl).mpr rfl
  refine forall₂_of_map_eq (mapM_eq_ok.mp hclasses) fun x hx cls hcls => ?_
  obtain ⟨name, text, hspelled⟩ := h.exists_spelled rfl x hx
  cases hspelled with
  | verifyStatic hmocked _ => exact .mockedClass hsource hmocked (mockedClassOf_eq_ok hmocked hcls)
  | should _ hshould => simp at hshould

theorem Replaced.verifies_mocks (h : Replaced f sites source target base heads edits)
    (huses : target.usesInOrder = true) (htarget : target ≠ .inOrderVerifyStatic) :
    List.Forall₂ (fun x mock => Verifies f source x.1 x.2 mock) (sites.zip heads) (heads.filterMap (·.mock)) := by
  have hsource := mt (staticVerify_iff h.offered huses).mp htarget
  have hmock : ∀ x ∈ sites.zip heads, ∃ mock, x.2.mock = some mock := by
    intro x hx
    obtain ⟨name, text, hspelled⟩ := h.exists_spelled huses x hx
    cases hspelled with
    | verify hmock | should hmock => exact ⟨_, hmock⟩
    | verifyStatic => exact absurd rfl htarget
  have hmocks : heads.filterMap (·.mock) = (sites.zip heads).filterMap (·.2.mock) := by
    conv_lhs => rw [← h.map_snd]
    exact List.filterMap_map
  rw [hmocks]
  exact (forall₂_filterMap hmock).imp fun x name hx => .mock hsource hx

theorem Replaced.verifies (h : Replaced f sites source target base heads edits) (huses : target.usesInOrder = true)
    {classes : List String} (hclasses : mockedClasses f target (sites.zip heads) = .ok classes) (hne : sites ≠ []) :
    List.Forall₂ (fun x subject => Verifies f source x.1 x.2 subject) (sites.zip heads)
      (orderArgs classes heads) := by
  unfold mockedClasses at hclasses
  by_cases htarget : target = .inOrderVerifyStatic
  · subst htarget
    have hrow := h.verifies_classes hclasses
    have hsome : classes.isEmpty = false := by
      have hlength := hrow.length_eq
      rw [List.length_zip, h.length_eq, Nat.min_self, ← h.length_eq] at hlength
      rw [List.isEmpty_eq_false_iff, ← List.length_pos_iff, ← hlength]
      exact List.length_pos_iff.mpr hne
    rwa [orderArgs, hsome, if_neg Bool.false_ne_true]
  · rw [if_neg htarget] at hclasses
    obtain rfl := Except.ok.inj hclasses
    exact h.verifies_mocks huses htarget

theorem replacement_declareInOrder (f : File) (statementStart : Nat) (name : String) (args : List String) :
    ∃ before after, allBlank before.toList = true ∧ allBlank after.toList = true ∧
      (declareInOrder f statementStart name args).replacement = before ++
        ("InOrder " ++ name ++ " = Mockito.inOrder(" ++ ", ".intercalate args ++ ");") ++ after := by
  unfold declareInOrder
  dsimp only
  split
  case isTrue hblank => exact ⟨_, "\n", hblank, by decide, rfl⟩
  case isFalse => exact ⟨"", " ", rfl, by decide, by rw [String.empty_append]; rfl⟩

/-- A new `InOrder` for some sites. -/
structure Introduces (f : File) (source : Verification.Dialect) (target : Verification.Target) (sites : List Site)
    (heads : List Head) (edits : List Edit) (declaration : Edit) (name : String) (args : List String) : Prop where
  text : ∃ before after, allBlank before.toList = true ∧ allBlank after.toList = true ∧ declaration.replacement =
    before ++ ("InOrder " ++ name ++ " = Mockito.inOrder(" ++ ", ".intercalate args ++ ");") ++ after
  place : ∃ offset, declaration.span = .point offset ∧ ∀ site ∈ sites, offset ≤ site.chain.span.start
  fresh : name ∉ f.identifiers
  used : List.Forall₂ (fun head e => SpelledAgainst name head target e.replacement) heads edits
  args : args.Nodup ∧ ∃ subjects,
    List.Forall₂ (fun x subject => Verifies f source x.1 x.2 subject) (sites.zip heads) subjects ∧
      (∀ a, a ∈ args ↔ a ∈ subjects) ∧ args.Pairwise fun a b => subjects.idxOf a < subjects.idxOf b

/-- The edits that convert some sites: one for each head, and a declaration where the heads need one. -/
structure Consistent (f : File) (source : Verification.Dialect) (target : Verification.Target) (sites : List Site)
    (heads : List Head) (declaration : Option Edit) (edits : List Edit) : Prop where
  read : List.Forall₂ (fun site head => source.head? site.chain = some head) sites heads
  rewritten : List.Forall₂ (Site.Rewritten (.verification source)) sites edits
  uniform : target.usesInOrder = true →
    (∀ head ∈ heads, head.inOrder.isSome = true) ∨ ∀ head ∈ heads, head.inOrder = none
  declared : declaration.isSome = true ↔ target.usesInOrder = true ∧ ∀ head ∈ heads, head.inOrder = none
  introduces : ∀ e ∈ declaration, ∃ name args, Introduces f source target sites heads edits e name args
  keeps : declaration = none → target.usesInOrder = true → List.Forall₂ (fun head e =>
    ∃ name, head.inOrder = some name ∧ SpelledAgainst name head target e.replacement) heads edits

theorem Replaced.heads_ne_nil (h : Replaced f sites source target base heads edits) (hne : sites ≠ []) :
    heads ≠ [] := by
  rintro rfl
  exact hne (List.eq_nil_of_length_eq_zero h.length_eq)

theorem addedInOrder_eq_none (h : target.usesInOrder = true → ∀ head ∈ heads, head.inOrder.isSome = true) :
    addedInOrder f target base heads = none := by
  rw [addedInOrder, if_neg]
  simp only [Bool.and_eq_true, List.any_eq_true, not_and, not_exists]
  intro huses head hhead hnone
  rw [Option.isNone_iff_eq_none] at hnone
  have hsome := h huses head hhead
  rw [hnone] at hsome
  cases hsome

theorem addedInOrder_eq_some (huses : target.usesInOrder = true) (hne : heads ≠ [])
    (h : ∀ head ∈ heads, head.inOrder = none) :
    addedInOrder f target base heads = some (freshName f.identifiers base) := by
  obtain ⟨head, rest, rfl⟩ := List.exists_cons_of_ne_nil hne
  simp [addedInOrder, huses, h head (.head rest)]

theorem Replaced.introduces (hf : f.Regular) {first : Site} {rest : List Site} (hsites : Found f (first :: rest))
    (h : Replaced f (first :: rest) source target base heads edits) (huses : target.usesInOrder = true)
    (hnone : ∀ head ∈ heads, head.inOrder = none) {name : String}
    (hadded : addedInOrder f target base heads = some name) (hname : name ∉ f.identifiers)
    {classes : List String} (hclasses : mockedClasses f target ((first :: rest).zip heads) = .ok classes) :
    let args := unique (orderArgs classes heads)
    Introduces f source target (first :: rest) heads edits (declareInOrder f first.statementStart name args) name args
      where
  text := replacement_declareInOrder f first.statementStart name _
  place := by
    have hfirst := hsites.found first (.head rest)
    obtain ⟨offset, hspan, hle, -⟩ := span_declareInOrder f first.statementStart name _ hfirst.cut
    refine ⟨offset, hspan, fun site hsite => ?_⟩
    exact Nat.le_trans (Nat.le_trans hle hfirst.starts) (hsites.start_le hf hsite)
  fresh := hname
  used := by
    refine (h.spelled huses).imp ?_
    rintro head e ⟨hhead, order, horder, hspelled⟩
    rw [hnone head hhead, hadded] at horder
    rwa [Option.some.inj horder]
  args := ⟨unique_nodup _, orderArgs classes heads, h.verifies huses hclasses (List.cons_ne_nil _ _), mem_unique,
    unique_pairwise _⟩

theorem Replaced.keeps (h : Replaced f sites source target base heads edits) (huses : target.usesInOrder = true)
    (hadded : addedInOrder f target base heads = none) : List.Forall₂ (fun head e =>
      ∃ name, head.inOrder = some name ∧ SpelledAgainst name head target e.replacement) heads edits := by
  refine (h.spelled huses).imp ?_
  rintro head e ⟨-, name, hname, hspelled⟩
  rw [hadded, Option.or_none] at hname
  exact ⟨name, hname, hspelled⟩

theorem order_introduced_consistently (f : File) (hf : f.Regular) (base : String) {selection : Selection}
    {selected : Selected} {source : Verification.Dialect} {target : Verification.Target} {planned : Planned}
    (hselect : select f selection = .ok selected) (hdialect : selected.dialect = .verification source)
    (h : convertVerification f selected.sites source target base = .ok planned) :
    selected.sites ≠ [] ∧ ∃ heads declaration edits, planned.edits = declaration.toList ++ edits ∧
      Consistent f source target selected.sites heads declaration edits := by
  have hsites := select_found hf hselect
  have hne := select_ne_nil hselect
  have hclass := select_classified hselect
  rw [hdialect] at hclass
  obtain ⟨heads, edits, classes, hreplaced, hclasses, hplanned⟩ := convertVerification_eq_ok h
  have hread : List.Forall₂ (fun site head => source.head? site.chain = some head) selected.sites heads :=
    forall₂_of_map_eq (mapM_eq_ok.mp hreplaced.read) fun site _ head => headOf_eq_ok.mp
  have huniform := hreplaced.uniform hsites
  refine ⟨hne, heads, ?_⟩
  by_cases hneed : target.usesInOrder = true ∧ ∀ head ∈ heads, head.inOrder = none
  · obtain ⟨huses, hnone⟩ := hneed
    have hadded : addedInOrder f target base heads = some _ :=
      addedInOrder_eq_some huses (hreplaced.heads_ne_nil hne) hnone
    obtain ⟨first, rest, hrest⟩ := List.exists_cons_of_ne_nil hne
    have hrewritten := hreplaced.rewritten hf hsites hclass
    rw [hrest] at hsites hread hreplaced hclasses hrewritten hplanned ⊢
    have hintroduces := hreplaced.introduces hf hsites huses hnone hadded (freshName_not_mem _ _) hclasses
    refine ⟨some _, edits, by rw [hplanned, hadded]; rfl, hread, hrewritten, huniform, iff_of_true rfl ⟨huses, hnone⟩,
      fun e he => ?_, nofun⟩
    obtain rfl := Option.some.inj he
    exact ⟨_, _, hintroduces⟩
  · have hadded : addedInOrder f target base heads = none :=
      addedInOrder_eq_none fun huses => (huniform huses).resolve_right fun hnone => hneed ⟨huses, hnone⟩
    refine ⟨none, edits, by rw [hplanned, hadded]; rfl, hread, hreplaced.rewritten hf hsites hclass, huniform, ?_, nofun,
      fun _ huses => hreplaced.keeps huses hadded⟩
    exact iff_of_false nofun hneed

theorem order_introduced_consistently_shared :
    let f := File.read
      "import org.mockito.*;class T\x7b\x7bMockito.verify(a).b();Mockito.verify(c).d();Mockito.verify(a).e();\x7d\x7d"
    f.Regular ∧ ∃ selected planned heads declaration edits name args, select f (.range ⟨30, 96⟩) = .ok selected ∧
      selected.dialect = .verification .mockitoVerify ∧
      convertVerification f selected.sites .mockitoVerify .inOrderVerify "order" = .ok planned ∧
      planned.edits = declaration :: edits ∧
      declaration.replacement = "InOrder order = Mockito.inOrder(a, c); " ∧
      Consistent f .mockitoVerify .inOrderVerify selected.sites heads (some declaration) edits ∧
      Introduces f .mockitoVerify .inOrderVerify selected.sites heads edits declaration name args := by
  intro f
  have hcomputed : ((select f (.range ⟨30, 96⟩)).toOption.any fun selected =>
      selected.dialect == .verification .mockitoVerify &&
        (convertVerification f selected.sites .mockitoVerify .inOrderVerify "order").toOption.any fun planned =>
          planned.edits.head?.any (·.replacement == "InOrder order = Mockito.inOrder(a, c); ")) = true := by
    decide +kernel
  obtain ⟨selected, hselect, hchecked⟩ := (Option.any_eq_true _ _).mp hcomputed
  obtain ⟨hdialect, hchecked⟩ := Bool.and_eq_true_iff.mp hchecked
  obtain ⟨planned, hplanned, hchecked⟩ := (Option.any_eq_true _ _).mp hchecked
  replace hselect := eq_ok_of_toOption hselect
  replace hplanned := eq_ok_of_toOption hplanned
  rw [beq_iff_eq] at hdialect
  have hf : f.Regular := (File.read_sound _).regular
  obtain ⟨-, heads, declaration, edits, hedits, hconsistent⟩ :=
    order_introduced_consistently f hf "order" hselect hdialect hplanned
  have hnone : ∀ head ∈ heads, head.inOrder = none := by
    intro head hhead
    obtain ⟨site, -, hread⟩ := exists_of_forall₂ hconsistent.read head hhead
    exact Verification.Dialect.inOrder_of_head? hread
  obtain ⟨e, rfl⟩ := Option.isSome_iff_exists.mp (hconsistent.declared.mpr ⟨rfl, hnone⟩)
  obtain ⟨name, args, hintroduces⟩ := hconsistent.introduces e rfl
  have htext : e.replacement = "InOrder order = Mockito.inOrder(a, c); " := by simpa [hedits] using hchecked
  exact ⟨hf, selected, planned, heads, e, edits, name, args, hselect, hdialect, hplanned, hedits, htext, hconsistent,
    hintroduces⟩

end MockDialect.Conversion
