import MockDialect.Proofs.Conversion.Merging
import MockDialect.Proofs.Stubbing.Folded

namespace MockDialect.Conversion

open Chain Edit Source Text
open Stubbing (Run ThrowForm)

variable {d : Stubbing.Dialect} {chain : Chain} {choice : Run → ThrowForm} {r : Run}

/-- An edit that puts the folded call in the place of a run, from the name of the first call to the end of the
last. -/
inductive FoldedBy (d : Stubbing.Dialect) (choice : Run → ThrowForm) (chain : Chain) (r : Run) (e : Edit) : Prop where
  | intro {i : Nat} {first last : Call} (starts : r.indices.head? = some i) (read : chain.get? i = some first)
      (stops : r.indices.getLast?.bind chain.get? = some last)
      (folded : d.foldedAt? choice chain i = some (r.fold chain (choice r) first))
      (mem : r.fold chain (choice r) first ∈ (d.folded choice chain).calls)
      (edit : e = replace ⟨first.nameSpan.start, last.span.stop⟩
        ((r.fold chain (choice r) first).name ++ (r.fold chain (choice r) first).argsText))

/-- What folding all runs of a chain comes to. -/
structure FoldsAway (d : Stubbing.Dialect) (choice : Run → ThrowForm) (chain : Chain) : Prop where
  edits : ∃ edits, (d.throwRuns chain ++ d.returnRuns chain).mapM (fun r => mergeRun chain r (choice r)) = .ok edits ∧
    List.Forall₂ (FoldedBy d choice chain) (d.throwRuns chain ++ d.returnRuns chain) edits ∧
    edits.Pairwise fun a b => Apart a.span b.span
  actions : Stubbing.actions (d.folded choice chain) =
    (List.range chain.length).flatMap (d.actionsAt choice chain)
  throwRuns : d.throwRuns (d.folded choice chain) = []
  returnRuns : d.returnRuns (d.folded choice chain) = []
  foldableCalls : d.foldableCalls (d.folded choice chain) = []

theorem mergeRun_eq_fold {first last : Call} {form : ThrowForm} (hr : r ∈ d.runs chain) (hform : form ∈ r.forms)
    (hfirst : r.indices.head?.bind chain.get? = some first)
    (hlast : r.indices.getLast?.bind chain.get? = some last) :
    mergeRun chain r form = .ok (replace ⟨first.nameSpan.start, last.span.stop⟩
      ((r.fold chain form first).name ++ (r.fold chain form first).argsText)) := by
  obtain ⟨lo, n, hlo⟩ := Stubbing.Dialect.interval_of_mem_runs hr
  have hlength : ¬ r.indices.length < 2 := by
    rw [hlo, List.length_range']
    omega
  have htexts : ∀ args : List Arg, (args.map form.change).map (·.text) = args.map form.convert := fun args => by
    rw [List.map_map]
    rfl
  rw [mergeRun, if_neg hlength, if_neg (by simpa using hform), hfirst, hlast]
  simp [Run.fold, htexts, String.append_assoc]

theorem foldedBy_of_mem (hr : r ∈ d.runs chain) (hform : choice r ∈ r.forms) :
    ∃ e, mergeRun chain r (choice r) = .ok e ∧ FoldedBy d choice chain r e := by
  obtain ⟨lo, n, hlo⟩ := Stubbing.Dialect.interval_of_mem_runs hr
  have hhead : r.indices.head? = some lo := Stubbing.Dialect.head?_of_range' hlo
  have hend : r.indices.getLast? = some (lo + (n + 1)) := by
    rw [hlo, List.range'_1_concat, List.getLast?_concat]
  obtain ⟨first, hfirst⟩ : ∃ first, chain.get? lo = some first :=
    ⟨_, List.getElem?_eq_getElem (Stubbing.Dialect.lt_of_mem_indices hr (List.mem_of_head? hhead))⟩
  obtain ⟨last, hlast⟩ : ∃ last, chain.get? (lo + (n + 1)) = some last :=
    ⟨_, List.getElem?_eq_getElem (Stubbing.Dialect.lt_of_mem_indices hr (List.mem_of_getLast? hend))⟩
  have hfolded : d.foldedAt? choice chain lo = some (r.fold chain (choice r) first) := by
    rw [Stubbing.Dialect.foldedAt?_first hr hlo, hfirst, Option.map_some]
  have hstops : r.indices.getLast?.bind chain.get? = some last := by rw [hend, Option.bind_some, hlast]
  refine ⟨_, mergeRun_eq_fold hr hform (by rw [hhead, Option.bind_some, hfirst]) hstops,
    .intro hhead hfirst hstops hfolded ?_ rfl⟩
  refine List.mem_filterMap.mpr ⟨lo, List.mem_range.mpr ?_, hfolded⟩
  exact Stubbing.Dialect.lt_of_mem_indices hr (List.mem_of_head? hhead)

theorem chooseForm_mem (wanted : Option ThrowForm) (r : Run) : Planner.chooseForm wanted r ∈ r.forms := by
  have hhead : r.forms.headD .keep ∈ r.forms := by
    unfold Run.forms
    cases r.mixture with
    | none => exact .head []
    | some m => cases m <;> exact .head _
  cases wanted with
  | none => exact hhead
  | some form =>
    rw [Planner.chooseForm]
    split
    case isTrue hform => simpa using hform
    case isFalse => exact hhead

theorem folding_leaves_nothing_to_fold (d : Stubbing.Dialect) (hlinked : chain.Linked)
    (hchoice : ∀ r ∈ d.throwRuns chain ++ d.returnRuns chain, choice r ∈ r.forms) : FoldsAway d choice chain := by
  obtain ⟨edits, hedits⟩ : ∃ edits, (d.throwRuns chain ++ d.returnRuns chain).mapM
      (fun r => mergeRun chain r (choice r)) = .ok edits := by
    refine exists_mapM fun r hr => ?_
    obtain ⟨e, he, -⟩ := foldedBy_of_mem hr (hchoice r hr)
    exact ⟨e, he⟩
  have hmap := mapM_eq_ok.mp hedits
  obtain ⟨hthrow, hreturn, hfoldable⟩ := d.runs_folded choice chain
  refine ⟨⟨edits, hedits, forall₂_of_map_eq hmap fun r hr e he => ?_, mergeRuns_apart hlinked.stops hmap⟩,
    d.actions_folded choice chain, hthrow, hreturn, hfoldable⟩
  obtain ⟨e', he', hfolded⟩ := foldedBy_of_mem hr (hchoice r hr)
  rwa [Except.ok.inj (he.symm.trans he')]

theorem folding_leaves_nothing_to_fold_mixed :
    let f := File.read ("import org.mockito.*;class T\x7b\x7bMockito.when(a.b()).thenThrow(A.class)" ++
      ".thenThrow(new B()).thenReturn(1).thenReturn(2);\x7d\x7d")
    let d := Stubbing.Dialect.mockitoWhen
    let choice := Planner.chooseForm (some .toInstances)
    ∃ place, f.callAt? 40 = some place ∧ (chainOf f place).Linked ∧
      (∀ r ∈ d.throwRuns (chainOf f place) ++ d.returnRuns (chainOf f place), choice r ∈ r.forms) ∧
      (d.folded choice (chainOf f place)).names = ["when", "thenThrow", "thenReturn"] ∧
      FoldsAway d choice (chainOf f place) := by
  intro f d choice
  have hcomputed : ((f.callAt? 40).any fun place =>
      (d.folded choice (chainOf f place)).names == ["when", "thenThrow", "thenReturn"]) = true := by
    decide +kernel
  obtain ⟨place, hplace, hnames⟩ := (Option.any_eq_true _ _).mp hcomputed
  obtain ⟨hin, -⟩ := (placeAt_in f 40).nearest hplace
  have hlinked : (chainOf f place).Linked := chainOf_linked (File.read_sound _) hin
  have hchoice : ∀ r ∈ d.throwRuns (chainOf f place) ++ d.returnRuns (chainOf f place), choice r ∈ r.forms :=
    fun r _ => chooseForm_mem (some .toInstances) r
  exact ⟨place, hplace, hlinked, hchoice, beq_iff_eq.mp hnames, folding_leaves_nothing_to_fold d hlinked hchoice⟩

end MockDialect.Conversion
