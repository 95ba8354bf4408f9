import MockDialect.Proofs.Conversion.Applicable
import MockDialect.Proofs.Stubbing.Runs

namespace MockDialect.Conversion

open Chain Edit Source Text
open Stubbing (Run ThrowForm)

variable {f : File} {text : List Char} {sites : List Site} {site : Site} {edits : List Edit}

/-- The edits of an answer; a refusal changes nothing. -/
def edited : Except Rejection (List Edit) → List Edit
  | .ok edits => edits
  | .error _ => []

theorem flatten_of_mapM {α : Type} {items : List α} {read : α → Except Rejection (List Edit)}
    {groups : List (List Edit)} (h : items.mapM read = .ok groups) :
    groups.flatten = items.flatMap fun x => edited (read x) := by
  have hgroups := congrArg (List.map edited) (mapM_eq_ok.mp h)
  rw [List.map_map, List.map_map] at hgroups
  have hid : groups.map (edited ∘ .ok) = groups := List.map_id groups
  rw [List.flatMap_def, ← hid, ← hgroups]
  rfl

theorem siteEdits_flatMap {editsOf : Site → List Edit} (hsites : Found f sites)
    (h : ∀ site ∈ sites, SiteEdits f [site] (editsOf site)) : SiteEdits f sites (sites.flatMap editsOf) where
  compatible := by
    refine ⟨fun e he => ?_, List.pairwise_flatMap.mpr ⟨fun site hsite => (h site hsite).compatible.apart, ?_⟩⟩
    · obtain ⟨site, hsite, he⟩ := List.mem_flatMap.mp he
      exact (h site hsite).compatible.fits e he
    · refine hsites.apart.imp_of_mem fun {s t} hs ht hst a ha b hb => .inl ?_
      obtain ⟨s', hs', -, hstop⟩ := (h s hs).inside a ha
      obtain ⟨t', ht', hstart, -⟩ := (h t ht).inside b hb
      rw [List.mem_singleton.mp hs'] at hstop
      rw [List.mem_singleton.mp ht'] at hstart
      exact Nat.le_trans hstop (Nat.le_trans hst hstart)
  inside := fun e he => by
    obtain ⟨site, hsite, he⟩ := List.mem_flatMap.mp he
    obtain ⟨site', hsite', hinside⟩ := (h site hsite).inside e he
    exact ⟨site, hsite, List.mem_singleton.mp hsite' ▸ hinside⟩

theorem Site.Found.before (hf : f.Regular) (h : site.Found f) :
    site.chain.calls.Pairwise (Call.Before f.text) := by
  obtain ⟨c, hc, -, hchain⟩ := h.chain
  rw [hchain]
  exact (chainOf_before hf hc).2

theorem rel_of_lt {chain : Chain} {R : Call → Call → Prop} (h : chain.calls.Pairwise R) {i j : Nat} {a b : Call}
    (hi : chain.get? i = some a) (hj : chain.get? j = some b) (hij : i < j) : R a b := by
  obtain ⟨hi', rfl⟩ := List.getElem?_eq_some_iff.mp hi
  obtain ⟨hj', rfl⟩ := List.getElem?_eq_some_iff.mp hj
  exact List.pairwise_iff_getElem.mp h i j hi' hj' hij

theorem mergeRun_span {chain : Chain} {isMember : Call → Bool} {run : Run} {form : ThrowForm} {e : Edit}
    (hrun : run.Of chain isMember) (h : mergeRun chain run form = .ok e) : ∃ i ∈ run.indices, ∃ j ∈ run.indices,
      i ≤ j ∧ ∃ first last, chain.get? i = some first ∧ chain.get? j = some last ∧
        e.span = ⟨first.nameSpan.start, last.span.stop⟩ := by
  -- a run is an interval of the calls, so it has a first and a last
  obtain ⟨lo, n, hindices⟩ := hrun.interval
  unfold mergeRun at h
  split at h
  case isTrue => cases h
  split at h
  case isTrue => cases h
  split at h
  case h_2 => cases h
  case h_1 first last hfirst hlast =>
    obtain rfl := Except.ok.inj h
    have hhead : run.indices.head? = some lo := by rw [hindices]; rfl
    have hend : run.indices.getLast? = some (lo + n) := by
      rw [hindices, List.range'_1_concat, List.getLast?_concat]
    rw [hhead, Option.bind_some] at hfirst
    rw [hend, Option.bind_some] at hlast
    exact ⟨lo, List.mem_of_head? hhead, lo + n, List.mem_of_getLast? hend, Nat.le_add_right lo n, first, last,
      hfirst, hlast, rfl⟩

theorem mergeRun_inside (hf : f.Regular) (hsite : site.Found f) {isMember : Call → Bool} {run : Run}
    {form : ThrowForm} {e : Edit} (hrun : run.Of site.chain isMember)
    (h : mergeRun site.chain run form = .ok e) : e.FitsIn f.text site.chain.span := by
  obtain ⟨i, -, j, -, hij, first, last, hfirst, hlast, hspan⟩ := mergeRun_span hrun h
  obtain ⟨hplaced, hstart, -⟩ := hsite.call hf (List.mem_of_getElem? hfirst)
  obtain ⟨hplaced', -, hstop⟩ := hsite.call hf (List.mem_of_getElem? hlast)
  have hordered : first.nameSpan.start ≤ last.span.stop := by
    rcases Nat.eq_or_lt_of_le hij with rfl | hlt
    · obtain rfl := Option.some.inj (hfirst.symm.trans hlast)
      exact hplaced.name.2
    · have hbefore := rel_of_lt (hsite.before hf) hfirst hlast hlt
      exact Nat.le_trans hplaced.name.2 (Nat.le_trans hbefore.name hplaced'.name.2)
  exact ⟨⟨hspan ▸ hordered, hspan ▸ ⟨hplaced.nameCuts, hplaced'.cuts.2⟩⟩,
    hspan ▸ Nat.le_trans hstart hplaced.name.1, hspan ▸ hstop⟩

theorem mergeRun_apart {chain : Chain} (hstops : chain.calls.Pairwise fun a b => a.span.stop ≤ b.nameSpan.start)
    {p q : Call → Bool} {r s : Run} {form form' : ThrowForm} {a b : Edit} (hr : r.Of chain p) (hs : s.Of chain q)
    (ha : mergeRun chain r form = .ok a) (hb : mergeRun chain s form' = .ok b) (h : r.Precedes s) :
    a.span.stop ≤ b.span.start := by
  obtain ⟨_, -, j, hj, -, _, last, -, hlast, hspan⟩ := mergeRun_span hr ha
  obtain ⟨i, hi, _, -, -, first, _, hfirst, -, hspan'⟩ := mergeRun_span hs hb
  rw [hspan, hspan']
  exact rel_of_lt hstops hlast hfirst (h j hj i hi)

theorem mergeRuns_apart {chain : Chain} (hstops : chain.calls.Pairwise fun a b => a.span.stop ≤ b.nameSpan.start)
    {d : Stubbing.Dialect} {choice : Run → ThrowForm}
    (h : (d.throwRuns chain ++ d.returnRuns chain).map (fun r => mergeRun chain r (choice r)) = edits.map .ok) :
    edits.Pairwise fun a b => Apart a.span b.span := by
  refine pairwise_of_map_eq h (Stubbing.Dialect.runs_apart d chain) fun r hr s hs a b ha hb hrs => ?_
  obtain ⟨_, hr⟩ := Stubbing.Dialect.runs_of hr
  obtain ⟨_, hs⟩ := Stubbing.Dialect.runs_of hs
  exact hrs.imp (mergeRun_apart hstops hr hs ha hb) (mergeRun_apart hstops hs hr hb ha)

theorem mergeChain_siteEdits (hf : f.Regular) (hsite : site.Found f) {d : Stubbing.Dialect}
    {wanted : Option ThrowForm} (h : Planner.mergeChain d wanted site.chain = .ok edits) :
    SiteEdits f [site] edits := by
  have hmap := mapM_eq_ok.mp h
  refine siteEdits_single (fun e he => ?_) (mergeRuns_apart ((hsite.before hf).imp fun hab => hab.name) hmap)
  obtain ⟨run, hrun, hmerge⟩ := exists_of_map_eq hmap e he
  obtain ⟨_, hof⟩ := Stubbing.Dialect.runs_of hrun
  exact mergeRun_inside hf hsite hof hmerge

theorem siteEdits_nil (f : File) (sites : List Site) : SiteEdits f sites [] :=
  ⟨⟨nofun, .nil⟩, nofun⟩

theorem applicable_planMerge {p : Planner} (hf : p.file.Regular) (selection : Selection)
    (wanted : Option ThrowForm) : Applicable p.file (p.planMerge selection wanted) := by
  unfold Planner.planMerge
  refine applicable_orUnavailable fun ⟨d, sites⟩ hselected => ?_
  have hsites := selectStubbing_found hf hselected
  refine applicable_orUnavailable fun groups hgroups => ?_
  have hedits : SiteEdits p.file sites groups.flatten := by
    rw [flatten_of_mapM hgroups]
    refine siteEdits_flatMap hsites fun site hsite => ?_
    cases hmerge : Planner.mergeChain d wanted site.chain with
    | error => exact siteEdits_nil _ _
    | ok edits => exact mergeChain_siteEdits hf (hsites.found site hsite) hmerge
  dsimp only
  split
  · exact applicable_error nofun
  · exact applicable_planOf hf hedits.compatible _

theorem setterCalls_sublist (d : Stubbing.Dialect) (chain : Chain) :
    (d.setterCalls chain).Sublist chain.calls := by
  unfold Stubbing.Dialect.setterCalls
  split
  · exact List.drop_sublist 1 _
  · exact List.takeWhile_sublist _

theorem mem_toggleThrow {d : Stubbing.Dialect} {call : Call} {e : Edit} (he : e ∈ edited (toggleThrow d call)) :
    ∃ a ∈ call.args, e.span = a.span := by
  unfold toggleThrow at he
  split at he
  case h_1 form _ =>
    obtain ⟨a, ha, rfl⟩ := List.mem_map.mp he
    exact ⟨a, ha, rfl⟩
  case h_2 => cases he

theorem toggleThrow_apart {d : Stubbing.Dialect} {call : Call} (h : call.Placed text) :
    (edited (toggleThrow d call)).Pairwise fun a b => Apart a.span b.span := by
  unfold toggleThrow
  split
  · exact List.pairwise_map.mpr (h.apart.imp .inl)
  · exact .nil

theorem toggleThrows_siteEdits (hf : f.Regular) (hsite : site.Found f) (d : Stubbing.Dialect) :
    SiteEdits f [site] (((d.setterCalls site.chain).filter d.isThrow).flatMap fun call =>
      edited (toggleThrow d call)) := by
  have hsub := (List.filter_sublist (p := d.isThrow)).trans (setterCalls_sublist d site.chain)
  refine siteEdits_single (fun e he => ?_) (List.pairwise_flatMap.mpr ⟨fun call hcall => ?_, ?_⟩)
  · obtain ⟨call, hcall, he⟩ := List.mem_flatMap.mp he
    obtain ⟨a, ha, hspan⟩ := mem_toggleThrow he
    obtain ⟨hplaced, hstart, hstop⟩ := hsite.call hf (hsub.subset hcall)
    obtain ⟨hordered, hcuts, hfrom, hto⟩ := hplaced.args a ha
    have harguments := hplaced.arguments
    refine ⟨⟨hspan ▸ hordered, hspan ▸ hcuts⟩, ?_, ?_⟩ <;> rw [hspan] <;> omega
  · exact toggleThrow_apart (hsite.call hf (hsub.subset hcall)).1
  · refine ((hsite.before hf).sublist hsub).imp fun {c d} hcd a ha b hb => .inl ?_
    obtain ⟨x, hx, ha⟩ := mem_toggleThrow ha
    obtain ⟨y, hy, hb⟩ := mem_toggleThrow hb
    have hleft := hcd.left.args x hx
    have hright := hcd.right.args y hy
    have harguments := hcd.left.arguments
    have hargs := hcd.args
    rw [ha, hb]
    omega

theorem applicable_planThrowToggle {p : Planner} (hf : p.file.Regular) (selection : Selection) :
    Applicable p.file (p.planThrowToggle selection) := by
  unfold Planner.planThrowToggle
  refine applicable_orUnavailable fun selected hselected => ?_
  have hsites := select_found hf hselected
  dsimp only
  split
  case h_2 => exact applicable_error nofun
  case h_1 d _ =>
    have hedits := siteEdits_flatMap hsites fun site hsite =>
      toggleThrows_siteEdits hf (hsites.found site hsite) d
    rw [← List.flatMap_assoc, ← List.filter_flatMap, ← List.flatMap_map] at hedits
    split
    · exact applicable_error nofun
    · exact applicable_planOf hf hedits.compatible _

end MockDialect.Conversion
