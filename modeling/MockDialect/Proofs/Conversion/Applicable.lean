import MockDialect.Proofs.Conversion.Reheaded
import MockDialect.Proofs.Conversion.Respelled
import MockDialect.Proofs.Conversion.Sites
import MockDialect.Proofs.Edit.Apart
import MockDialect.Proofs.Source.Headers
import MockDialect.Proofs.Text.Lines

namespace MockDialect.Conversion

open Chain Edit Java Recognition Source Text

/-- An answer to a request that is either a plan that fits the text or a reason that has nothing to do with
the edits. -/
structure Applicable (f : File) (answer : Except Failure Plan) : Prop where
  applies : ∀ plan, answer = .ok plan → ∃ result, plan.apply f.source = .ok result
  consistent : ∀ error, answer ≠ .error (.edit error)

variable {f : File} {edits : List Edit}

theorem applicable_error {failure : Failure} (h : ∀ error, failure ≠ .edit error) :
    Applicable f (.error failure) :=
  ⟨nofun, fun error he => h error (Except.error.inj he)⟩

theorem applicable_bind {α : Type} {x : Except Failure α} {k : α → Except Failure Plan}
    (hx : ∀ error, x ≠ .error (.edit error)) (hk : ∀ a, x = .ok a → Applicable f (k a)) :
    Applicable f (x >>= k) := by
  cases x with
  | error failure => exact applicable_error fun error he => hx error (he ▸ rfl)
  | ok a => exact hk a rfl

theorem orUnavailable_eq_ok {α : Type} {x : Except Rejection α} {a : α} :
    orUnavailable x = .ok a ↔ x = .ok a := by
  cases x <;> simp [orUnavailable]

theorem applicable_orUnavailable {α : Type} {x : Except Rejection α} {k : α → Except Failure Plan}
    (hk : ∀ a, x = .ok a → Applicable f (k a)) : Applicable f (orUnavailable x >>= k) :=
  applicable_bind (fun error => by cases x <;> simp [orUnavailable])
    fun a ha => hk a (orUnavailable_eq_ok.mp ha)

theorem applicable_planOf (hf : f.Regular) (h : Compatible f.text edits) (summary : String) :
    Applicable f (planOf f.revision edits summary) := by
  obtain ⟨plan, hplan, hrevision, result, hresult⟩ := h.make f.revision summary
  have hplanOf : planOf f.revision edits summary = .ok plan := by rw [planOf, hplan]
  rw [hplanOf]
  refine ⟨fun plan' he => ⟨String.ofList result, ?_⟩, nofun⟩
  obtain rfl := Except.ok.inj he
  rw [hf.text] at hresult
  simp [Plan.apply, hrevision, File.revision, Plan.preview, hresult]

theorem apart_imports (hf : f.Regular) {n : Node} (hn : f.tree.Within n) (hcontent : isContent n = true) {s : Span}
    (hs : n.span.start ≤ s.start ∧ s.stop ≤ n.span.stop) : Apart s (.point f.imports.place) := by
  rcases hf.place_cases with hzero | ⟨semicolon, hplace, -, hclear⟩
  · rw [hzero]
    exact .inr (Nat.zero_le _)
  · rw [hplace]
    rcases hclear n hn hcontent with h | h
    · exact .inr (Nat.le_trans h hs.1)
    · exact .inl (Nat.le_succ_of_le (Nat.le_trans hs.2 h))

theorem compatible_withImports (hf : f.Regular) (h : Compatible f.text edits)
    (hapart : ∀ e ∈ edits, Apart e.span (.point f.imports.place)) (names : List String) :
    Compatible f.text (edits ++ (planImports f.imports names).toList) := by
  cases himports : planImports f.imports names with
  | none => simpa using h
  | some e =>
    have hspan := span_of_planImports himports
    refine h.append (fits_of_point hspan hf.isBoundary_place).compatible fun a ha b hb => ?_
    rw [List.mem_singleton.mp hb, hspan]
    exact hapart a ha

theorem isContent_of_isCall {n : Node} (h : n.isCall = true) : isContent n = true := by
  rw [Node.isCall, beq_iff_eq] at h
  rw [isContent, h]
  rfl

theorem Site.Found.node {site : Site} (h : site.Found f) :
    ∃ n, f.tree.Within n ∧ n.isCall = true ∧ n.span = site.chain.span := by
  obtain ⟨c, hc, -, hchain⟩ := h.chain
  obtain ⟨l, hin, hisCall, -, hspan⟩ := exists_span_chainOf hc (hchain ▸ h.filled)
  exact ⟨l.node, hin.within, hisCall, by rw [hchain, hspan]; rfl⟩

theorem Site.Found.fits (hf : f.Regular) {site : Site} (h : site.Found f) (replacement : String) :
    (replace site.chain.span replacement).Fits f.text := by
  obtain ⟨n, hn, -, hspan⟩ := h.node
  have hplaced := hn.placed hf.placed
  exact ⟨hspan ▸ hplaced.wellFormed.ordered, hspan ▸ hplaced.cuts.self⟩

theorem Site.Found.call (hf : f.Regular) {site : Site} (h : site.Found f) {call : Call}
    (hcall : call ∈ site.chain.calls) : call.Placed f.text ∧
      site.chain.span.start ≤ call.span.start ∧ call.span.stop ≤ site.chain.span.stop := by
  obtain ⟨c, hc, -, hchain⟩ := h.chain
  obtain ⟨hplaced, hbefore⟩ := chainOf_before hf hc
  obtain ⟨last, hlast⟩ : ∃ last, site.chain.calls.getLast? = some last := ⟨_, List.getLast?_eq_some_getLast h.filled⟩
  have hspan : site.chain.span = last.span := by rw [Chain.span, hlast]; rfl
  rw [hchain] at hcall hlast
  obtain ⟨front, hcalls⟩ := List.getLast?_eq_some_iff.mp hlast
  refine ⟨hplaced call hcall, ?_⟩
  rw [hspan]
  rw [hcalls] at hcall hbefore
  rcases List.mem_append.mp hcall with hfront | hmem
  · have hlater := (List.pairwise_append.mp hbefore).2.2 call hfront last (.head [])
    exact ⟨hlater.starts, Nat.le_trans hlater.name hlater.right.name.2⟩
  · rw [List.mem_singleton.mp hmem]
    exact ⟨Nat.le_refl _, Nat.le_refl _⟩

/-- Edits that stay in sites. -/
structure SiteEdits (f : File) (sites : List Site) (edits : List Edit) : Prop where
  compatible : Compatible f.text edits
  inside : ∀ e ∈ edits, ∃ site ∈ sites,
    site.chain.span.start ≤ e.span.start ∧ e.span.stop ≤ site.chain.span.stop

theorem siteEdits_of_map {α γ : Type} {items : List α} {siteAt : α → Site} {read : α → γ} {done : Edit → γ}
    (hsites : Found f (items.map siteAt)) (hmap : items.map read = edits.map done)
    (hedit : ∀ x ∈ items, ∀ e, read x = done e → e.FitsIn f.text (siteAt x).chain.span) :
    SiteEdits f (items.map siteAt) edits where
  compatible := by
    refine ⟨fun e he => ?_, ?_⟩
    · obtain ⟨x, hx, hread⟩ := exists_of_map_eq hmap e he
      exact (hedit x hx e hread).toFits
    · refine pairwise_of_map_eq hmap (List.pairwise_map.mp hsites.apart) fun a ha b hb x y hx hy hab => .inl ?_
      exact Nat.le_trans (hedit a ha x hx).stops (Nat.le_trans hab (hedit b hb y hy).starts)
  inside := fun e he => by
    obtain ⟨x, hx, hread⟩ := exists_of_map_eq hmap e he
    have hin := hedit x hx e hread
    exact ⟨siteAt x, List.mem_map_of_mem hx, hin.starts, hin.stops⟩

theorem siteEdits_single {site : Site} (h : ∀ e ∈ edits, e.FitsIn f.text site.chain.span)
    (hapart : edits.Pairwise fun a b => Apart a.span b.span) : SiteEdits f [site] edits where
  compatible := ⟨fun e he => (h e he).toFits, hapart⟩
  inside := fun e he => ⟨site, .head [], (h e he).starts, (h e he).stops⟩

theorem SiteEdits.apart_imports (hf : f.Regular) {sites : List Site} (hsites : Found f sites)
    (h : SiteEdits f sites edits) : ∀ e ∈ edits, Apart e.span (.point f.imports.place) := by
  intro e he
  obtain ⟨site, hsite, hinside⟩ := h.inside e he
  obtain ⟨n, hn, hcall, hspan⟩ := (hsites.found site hsite).node
  exact Conversion.apart_imports hf hn (isContent_of_isCall hcall) (hspan ▸ hinside)

theorem convertStubbing_siteEdits (hf : f.Regular) {sites : List Site} (hsites : Found f sites)
    {source target : Stubbing.Dialect}
    (h : sites.mapM (fun site => convertStubbing site.chain source target) = .ok edits) :
    SiteEdits f sites edits := by
  rw [← List.map_id' sites] at hsites ⊢
  refine siteEdits_of_map hsites (mapM_eq_ok.mp h) fun site hsite e he => ?_
  obtain ⟨-, -, actions, stubbed, mock, -, -, -, -, -, rfl⟩ := convertStubbing_eq_ok.mp he
  have hfound := hsites.found site (by simpa using hsite)
  exact ⟨hfound.fits hf _, Nat.le_refl _, Nat.le_refl _⟩

theorem replaceHead_inside (hf : f.Regular) {site : Site} (h : site.Found f) {source : Verification.Dialect}
    {target : Verification.Target} {added : Option String} {head : Verification.Head} {e : Edit}
    (he : replaceHead source target added site head = .ok e) : e.FitsIn f.text site.chain.span := by
  obtain ⟨text, last, -, hlast, rfl⟩ := replaceHead_eq_ok.mp he
  obtain ⟨hplaced, hstart, hstop⟩ := h.call hf (List.mem_of_getElem? hlast)
  have hwhole := h.fits hf text
  exact ⟨⟨Nat.le_trans hstart hplaced.ordered, hwhole.cuts.1, hplaced.cuts.2⟩, Nat.le_refl _, hstop⟩

theorem span_declareInOrder (f : File) (statementStart : Nat) (name : String) (args : List String)
    (hcut : isBoundary f.text statementStart = true) : ∃ offset,
      (declareInOrder f statementStart name args).span = .point offset ∧ offset ≤ statementStart ∧
        isBoundary f.text offset = true := by
  unfold declareInOrder
  dsimp only
  split
  · exact ⟨_, rfl, lineStart_le f.text statementStart, isBoundary_of_mem_lineStarts (lineStart_mem f.text _)⟩
  · exact ⟨_, rfl, Nat.le_refl _, hcut⟩

theorem Found.start_le (hf : f.Regular) {first : Site} {rest : List Site} (h : Found f (first :: rest)) {site : Site}
    (hsite : site ∈ first :: rest) : first.chain.span.start ≤ site.chain.span.start := by
  rcases List.mem_cons.mp hsite with rfl | hsite
  · exact Nat.le_refl _
  · have hfirst := (h.found first (.head rest)).fits hf ""
    exact Nat.le_trans hfirst.ordered (List.rel_of_pairwise_cons h.apart hsite)

theorem declaration_compatible (hf : f.Regular) {first : Site} {rest : List Site} (name : String) (args : List String)
    (hsites : Found f (first :: rest)) (h : SiteEdits f (first :: rest) edits) :
    Compatible f.text ([declareInOrder f first.statementStart name args] ++ edits) := by
  have hfirst := hsites.found first (.head rest)
  obtain ⟨offset, hspan, hle, hcut⟩ := span_declareInOrder f first.statementStart name args hfirst.cut
  refine (fits_of_point hspan hcut).compatible.append h.compatible fun a ha b hb => .inl ?_
  rw [List.mem_singleton.mp ha, hspan]
  obtain ⟨site, hsite, hstart, -⟩ := h.inside b hb
  -- the declaration only has to be in front of the first site: the others come behind it
  exact Nat.le_trans (Nat.le_trans hle hfirst.starts) (Nat.le_trans (hsites.start_le hf hsite) hstart)

theorem declarationFor_cases (f : File) (args : List String) (added : Option String) (sites : List Site) :
    declarationFor f args added sites = [] ∨ ∃ first rest name, sites = first :: rest ∧
      declarationFor f args added sites = [declareInOrder f first.statementStart name args] := by
  unfold declarationFor
  split
  case h_1 name first rest => exact .inr ⟨first, rest, name, rfl, rfl⟩
  case h_2 => exact .inl rfl

theorem apart_points (s : Span) {m n : Nat} (h : s = .point m) : Apart s (.point n) := by
  subst h
  exact Nat.le_total m n

theorem convertVerification_compatible (hf : f.Regular) {sites : List Site} (hsites : Found f sites)
    {source : Verification.Dialect} {target : Verification.Target} {base : String} {planned : Planned}
    (h : convertVerification f sites source target base = .ok planned) : Compatible f.text planned.edits ∧
      ∀ e ∈ planned.edits, Apart e.span (.point f.imports.place) := by
  obtain ⟨heads, edits, args, hreplaced, he⟩ := replaced_of_convertVerification h
  have hsiteEdits : SiteEdits f sites edits := by
    rw [← hreplaced.map_fst] at hsites ⊢
    refine siteEdits_of_map hsites (mapM_eq_ok.mp hreplaced.replaced) fun x hx e he => ?_
    exact replaceHead_inside hf (hsites.found x.1 (List.mem_map_of_mem hx)) he
  rw [he]
  rcases declarationFor_cases f args (addedInOrder f target base heads) sites with
    hnone | ⟨first, rest, name, rfl, hone⟩
  · rw [hnone]
    exact ⟨hsiteEdits.compatible, hsiteEdits.apart_imports hf hsites⟩
  · rw [hone]
    refine ⟨declaration_compatible hf name args hsites hsiteEdits, fun e he => ?_⟩
    rcases List.mem_append.mp he with he | he
    · obtain ⟨offset, hspan, -⟩ := span_declareInOrder f first.statementStart name args
        (hsites.found first (.head rest)).cut
      rw [List.mem_singleton.mp he]
      exact apart_points _ hspan
    · exact hsiteEdits.apart_imports hf hsites e he

theorem editsFor_compatible {p : Planner} (hf : p.file.Regular) {selected : Selected} {target : Target}
    {planned : Planned} (hsites : Found p.file selected.sites) (h : p.editsFor selected target = .ok planned) :
    Compatible p.file.text planned.edits ∧
      ∀ e ∈ planned.edits, Apart e.span (.point p.file.imports.place) := by
  unfold Planner.editsFor at h
  split at h
  case h_1 =>
    obtain ⟨edits, hedits, h⟩ := bind_eq_ok.mp h
    obtain rfl := Except.ok.inj h
    have hsiteEdits := convertStubbing_siteEdits hf hsites hedits
    exact ⟨hsiteEdits.compatible, hsiteEdits.apart_imports hf hsites⟩
  case h_2 => exact convertVerification_compatible hf hsites h
  case h_3 => cases h

theorem applicable_planSelected {p : Planner} (hf : p.file.Regular) {selected : Selected} (target : Target)
    (hsites : Found p.file selected.sites) : Applicable p.file (p.planSelected selected target) := by
  unfold Planner.planSelected
  dsimp only
  split
  · exact applicable_error nofun
  · refine applicable_orUnavailable fun planned hplanned => ?_
    obtain ⟨hcompatible, hapart⟩ := editsFor_compatible hf hsites hplanned
    exact applicable_planOf hf (compatible_withImports hf hcompatible hapart planned.imports) _

theorem applicable_plan {p : Planner} (hf : p.file.Regular) (selection : Selection) (target : Target) :
    Applicable p.file (p.plan selection target) :=
  applicable_orUnavailable fun _ hselected =>
    applicable_orUnavailable fun _ _ => applicable_planSelected hf target (select_found hf hselected)

end MockDialect.Conversion
