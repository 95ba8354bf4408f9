import Mathlib.Data.List.Sort
import MockDialect.Proofs.Stubbing.Parts
import MockDialect.Proofs.Stubbing.Runs

namespace MockDialect.Stubbing

open Chain

/-- What a change of form makes of an argument. -/
def ThrowForm.changeKind (form : ThrowForm) (kind : ArgKind) : ArgKind :=
  match form, kind with
  | toClasses, .newInstance typeName _ => .classLiteral typeName
  | toInstances, .classLiteral typeName => .newInstance typeName false
  | _, kind => kind

def ThrowForm.change (form : ThrowForm) (a : Arg) : Arg :=
  { a with text := form.convert a, kind := form.changeKind a.kind }

theorem ThrowForm.change_keep (a : Arg) : ThrowForm.keep.change a = a := by
  obtain ⟨text, span, kind, type⟩ := a
  cases kind <;> rfl

/-- The first call of a run with the arguments of all its calls. -/
def Run.fold (r : Run) (chain : Chain) (form : ThrowForm) (first : Call) : Call :=
  let args := ((callsAt chain r.indices).flatMap (·.args)).map form.change
  { first with args := args, argsText := "(" ++ ", ".intercalate (args.map (·.text)) ++ ")" }

/-- The actions of a chain: its methods with one argument each. -/
def actions (chain : Chain) : List (String × Arg) :=
  chain.calls.flatMap fun call => call.args.map fun a => (call.name, a)

namespace Dialect

def runs (d : Dialect) (chain : Chain) : List Run := d.throwRuns chain ++ d.returnRuns chain

/-- The run that the call at a position belongs to. -/
def runAt? (d : Dialect) (chain : Chain) (i : Nat) : Option Run := (d.runs chain).find? (·.indices.contains i)

/-- A value for a position: by whether it is in no run, first in one, or further in. -/
def byRun {α : Type} (d : Dialect) (chain : Chain) (i : Nat) (alone : α) (first : Run → α) (inner : α) : α :=
  match d.runAt? chain i with
  | none => alone
  | some r => if r.indices.head? = some i then first r else inner

/-- The call that stands for the one at a position; none if that is folded into an earlier one. -/
def foldedAt? (d : Dialect) (choice : Run → ThrowForm) (chain : Chain) (i : Nat) : Option Call :=
  d.byRun chain i (chain.get? i) (fun r => (chain.get? i).map (r.fold chain (choice r))) none

/-- A chain with its runs folded, the arguments of each in a form of choice. -/
def folded (d : Dialect) (choice : Run → ThrowForm) (chain : Chain) : Chain :=
  ⟨(List.range chain.length).filterMap (d.foldedAt? choice chain)⟩

/-- The form that the arguments at a position are given. -/
def formAt (d : Dialect) (choice : Run → ThrowForm) (chain : Chain) (i : Nat) : ThrowForm :=
  match d.runAt? chain i with
  | none => .keep
  | some r => choice r

/-- The actions at a position, in the form that they are given. -/
def actionsAt (d : Dialect) (choice : Run → ThrowForm) (chain : Chain) (i : Nat) : List (String × Arg) :=
  (chain.get? i).toList.flatMap fun call =>
    call.args.map fun a => (call.name, (d.formAt choice chain i).change a)

variable {d : Dialect} {chain : Chain} {isMember : Call → Bool} {choice : Run → ThrowForm} {r : Run} {i j : Nat}
  {a b : Call}

/-- The conditions under which setters make a run. -/
def Folds (d : Dialect) (isMember : Call → Bool) : Prop := isMember = d.isThrow ∨ isMember = d.isReturn

theorem Folds.congr (h : d.Folds isMember) (hname : a.name = b.name) (hreceiver : a.receiver = b.receiver)
    (hargs : a.args.isEmpty = b.args.isEmpty) : isMember a = isMember b := by
  rcases h with rfl | rfl
  · rw [isThrow, isThrow, hname, hreceiver, hargs]
  · rw [isReturn, isReturn, isSetter, isSetter, hname, hreceiver, hargs]

theorem Folds.isSetter (h : d.Folds isMember) (ha : isMember a = true) : d.isSetter a = true := by
  rcases h with rfl | rfl
  · simp only [isThrow, Bool.and_eq_true, beq_iff_eq] at ha
    have hname : d.setterName .throws = some a.name := by
      rw [ha.1.1]
      cases d <;> rfl
    exact isSetter_of_carries hname ha.2
  · simp only [isReturn, Bool.and_eq_true] at ha
    exact ha.2

theorem Folds.args (h : d.Folds isMember) (ha : isMember a = true) : a.args.isEmpty = false := by
  rcases h with rfl | rfl
  · simp only [isThrow, Bool.and_eq_true, Bool.not_eq_true'] at ha
    exact ha.1.2
  · simp only [isReturn, Bool.and_eq_true, Bool.not_eq_true'] at ha
    exact ha.1.2

theorem Folds.name (h : d.Folds isMember) (ha : isMember a = true) (hb : isMember b = true) : a.name = b.name := by
  rcases h with rfl | rfl
  · simp only [isThrow, Bool.and_eq_true, beq_iff_eq] at ha hb
    rw [ha.1.1, hb.1.1]
  · simp only [isReturn, Bool.and_eq_true, beq_iff_eq] at ha hb
    exact Option.some.inj (ha.1.1.trans hb.1.1.symm)

theorem Folds.eq_of_member {isMember' : Call → Bool} (h : d.Folds isMember) (h' : d.Folds isMember')
    (ha : isMember a = true) (ha' : isMember' a = true) : isMember = isMember' := by
  rcases h with rfl | rfl <;> rcases h' with rfl | rfl
  · rfl
  · rw [not_isReturn_of_isThrow ha] at ha'
    cases ha'
  · rw [not_isReturn_of_isThrow ha'] at ha
    cases ha
  · rfl

theorem runsOf_of_mem_runs (h : r ∈ d.runs chain) :
    ∃ isMember, d.Folds isMember ∧ r.indices ∈ d.runsOf chain isMember := by
  rcases List.mem_append.mp h with h | h
  · obtain ⟨indices, hindices, rfl⟩ := List.mem_map.mp h
    exact ⟨d.isThrow, .inl rfl, hindices⟩
  · obtain ⟨indices, hindices, rfl⟩ := List.mem_map.mp h
    exact ⟨d.isReturn, .inr rfl, hindices⟩

theorem exists_run {indices : List Nat} (h : d.Folds isMember) (hindices : indices ∈ d.runsOf chain isMember) :
    ∃ r ∈ d.runs chain, r.indices = indices := by
  rcases h with rfl | rfl
  · exact ⟨_, List.mem_append_left _ (List.mem_map_of_mem hindices), rfl⟩
  · exact ⟨_, List.mem_append_right _ (List.mem_map_of_mem hindices), rfl⟩

theorem interval_of_mem_runsOf {indices : List Nat} (h : indices ∈ d.runsOf chain isMember) :
    ∃ lo n, indices = List.range' lo (n + 2) := by
  obtain ⟨lo, n, hlo, -⟩ := (runsOf_stretched d chain isMember).interval _ h
  have hlength := (List.mem_filter.mp h).2
  rw [hlo, List.length_range', decide_eq_true_eq] at hlength
  obtain ⟨m, rfl⟩ : ∃ m, n = m + 1 := ⟨n - 1, by omega⟩
  exact ⟨lo, m, hlo⟩

theorem interval_of_mem_runs (h : r ∈ d.runs chain) : ∃ lo n, r.indices = List.range' lo (n + 2) := by
  obtain ⟨isMember, -, hindices⟩ := runsOf_of_mem_runs h
  exact interval_of_mem_runsOf hindices

theorem eq_of_mem_indices {s : Run} (hr : r ∈ d.runs chain) (hs : s ∈ d.runs chain) (hir : i ∈ r.indices)
    (his : i ∈ s.indices) : r = s := by
  by_contra hne
  have : Std.Symm fun r s : Run => r.Precedes s ∨ s.Precedes r := ⟨fun _ _ => Or.symm⟩
  rcases (runs_apart d chain).forall hr hs hne with h | h
  · exact Nat.lt_irrefl i (h i hir i his)
  · exact Nat.lt_irrefl i (h i his i hir)

theorem runAt?_eq_some : d.runAt? chain i = some r ↔ r ∈ d.runs chain ∧ i ∈ r.indices := by
  constructor
  · intro h
    exact ⟨List.mem_of_find?_eq_some h, by simpa using List.find?_some h⟩
  · rintro ⟨hr, hi⟩
    have hsome : (d.runAt? chain i).isSome = true := List.find?_isSome.mpr ⟨r, hr, by simpa using hi⟩
    obtain ⟨s, hs⟩ := Option.isSome_iff_exists.mp hsome
    have his : i ∈ s.indices := by simpa using List.find?_some hs
    rw [hs, eq_of_mem_indices hr (List.mem_of_find?_eq_some hs) hi his]

/-- How a position stands to the runs of a chain: in none, first in one, or further in. -/
inductive Stands (d : Dialect) (chain : Chain) (i : Nat) : Prop where
  | alone (h : d.runAt? chain i = none)
  | first {r : Run} {n : Nat} (mem : r ∈ d.runs chain) (indices : r.indices = List.range' i (n + 2))
  | inner {r : Run} {lo n : Nat} (mem : r ∈ d.runs chain) (indices : r.indices = List.range' lo (n + 2))
      (lt : lo < i) (le : i < lo + (n + 2))

theorem stands (d : Dialect) (chain : Chain) (i : Nat) : d.Stands chain i := by
  cases hrun : d.runAt? chain i with
  | none => exact .alone hrun
  | some r =>
    obtain ⟨hmem, hi⟩ := runAt?_eq_some.mp hrun
    obtain ⟨lo, n, hlo⟩ := interval_of_mem_runs hmem
    rw [hlo, List.mem_range'_1] at hi
    by_cases hfirst : lo = i
    · subst hfirst
      exact .first hmem hlo
    · exact .inner hmem hlo (by omega) hi.2

section

variable {lo n : Nat}

theorem mem_of_range' (hindices : r.indices = List.range' lo (n + 2)) (hle : lo ≤ i) (hlt : i < lo + (n + 2)) :
    i ∈ r.indices := by
  rw [hindices, List.mem_range'_1]
  exact ⟨hle, hlt⟩

theorem runAt?_of_range' (hr : r ∈ d.runs chain) (hindices : r.indices = List.range' lo (n + 2)) (hle : lo ≤ i)
    (hlt : i < lo + (n + 2)) : d.runAt? chain i = some r :=
  runAt?_eq_some.mpr ⟨hr, mem_of_range' hindices hle hlt⟩

theorem head?_of_range' (hindices : r.indices = List.range' lo (n + 2)) : r.indices.head? = some lo := by
  rw [hindices]
  rfl

variable {α : Type} {alone inner : α} {first : Run → α}

theorem byRun_alone (h : d.runAt? chain i = none) : d.byRun chain i alone first inner = alone := by
  rw [byRun, h]

theorem byRun_first (hr : r ∈ d.runs chain) (hindices : r.indices = List.range' i (n + 2)) :
    d.byRun chain i alone first inner = first r := by
  rw [byRun, runAt?_of_range' hr hindices (Nat.le_refl i) (by omega)]
  exact if_pos (head?_of_range' hindices)

theorem byRun_inner (hr : r ∈ d.runs chain) (hindices : r.indices = List.range' lo (n + 2)) (hlt : lo < i)
    (hi : i < lo + (n + 2)) : d.byRun chain i alone first inner = inner := by
  rw [byRun, runAt?_of_range' hr hindices (Nat.le_of_lt hlt) hi]
  refine if_neg fun hhead => ?_
  rw [head?_of_range' hindices, Option.some.injEq] at hhead
  omega

theorem foldedAt?_alone (h : d.runAt? chain i = none) : d.foldedAt? choice chain i = chain.get? i :=
  byRun_alone h

theorem foldedAt?_first (hr : r ∈ d.runs chain) (hindices : r.indices = List.range' i (n + 2)) :
    d.foldedAt? choice chain i = (chain.get? i).map (r.fold chain (choice r)) :=
  byRun_first hr hindices

theorem foldedAt?_inner (hr : r ∈ d.runs chain) (hindices : r.indices = List.range' lo (n + 2)) (hlt : lo < i)
    (hi : i < lo + (n + 2)) : d.foldedAt? choice chain i = none :=
  byRun_inner hr hindices hlt hi

end

/-- The positions whose calls the call at a position stands for in the folded chain. -/
def block (d : Dialect) (chain : Chain) (i : Nat) : List Nat := d.byRun chain i [i] (·.indices) []

section

variable {lo n : Nat}

theorem block_alone (h : d.runAt? chain i = none) : d.block chain i = [i] := byRun_alone h

theorem block_first (hr : r ∈ d.runs chain) (hindices : r.indices = List.range' i (n + 2)) :
    d.block chain i = r.indices :=
  byRun_first hr hindices

theorem block_inner (hr : r ∈ d.runs chain) (hindices : r.indices = List.range' lo (n + 2)) (hlt : lo < i)
    (hi : i < lo + (n + 2)) : d.block chain i = [] :=
  byRun_inner hr hindices hlt hi

end

theorem block_ascending (d : Dialect) (chain : Chain) (i : Nat) : (d.block chain i).Pairwise (· < ·) := by
  cases d.stands chain i with
  | alone h => rw [block_alone h]; exact List.pairwise_singleton _ i
  | first mem indices => rw [block_first mem indices, indices]; exact List.pairwise_lt_range'
  | inner mem indices lt le => rw [block_inner mem indices lt le]; exact .nil

theorem block_before {k l : Nat} (hij : i < j) (hk : k ∈ d.block chain i) (hl : l ∈ d.block chain j) : k < l := by
  have hjl : j ≤ l := by
    cases d.stands chain j with
    | alone h => rw [block_alone h] at hl; exact Nat.le_of_eq (List.mem_singleton.mp hl).symm
    | first mem indices => rw [block_first mem indices, indices, List.mem_range'_1] at hl; exact hl.1
    | inner mem indices lt le => rw [block_inner mem indices lt le] at hl; cases hl
  cases d.stands chain i with
  | alone h =>
    rw [block_alone h, List.mem_singleton] at hk
    omega
  | inner mem indices lt le =>
    rw [block_inner mem indices lt le] at hk
    cases hk
  | first mem indices =>
    rw [block_first mem indices, indices, List.mem_range'_1] at hk
    -- if the later position were in the run, nothing would belong to it
    by_contra hkl
    rw [block_inner mem indices hij (by omega)] at hl
    cases hl

theorem lt_of_mem_indices (hr : r ∈ d.runs chain) (hi : i ∈ r.indices) : i < chain.length := by
  obtain ⟨isMember, -, hindices⟩ := runsOf_of_mem_runs hr
  obtain ⟨call, hcall, -⟩ := (run_of_runsOf hindices).member i hi
  exact (List.getElem?_eq_some_iff.mp hcall).1

theorem exists_mem_block (hi : i < chain.length) : ∃ j < chain.length, i ∈ d.block chain j := by
  cases d.stands chain i with
  | alone h => exact ⟨i, hi, by rw [block_alone h]; exact .head []⟩
  | first mem indices =>
    refine ⟨i, hi, ?_⟩
    rw [block_first mem indices]
    exact mem_of_range' indices (Nat.le_refl i) (by omega)
  | @inner r lo n mem indices lt le =>
    refine ⟨lo, by omega, ?_⟩
    rw [block_first mem indices]
    exact mem_of_range' indices (Nat.le_of_lt lt) le

theorem lt_of_mem_block (hj : j < chain.length) (hi : i ∈ d.block chain j) : i < chain.length := by
  cases d.stands chain j with
  | alone h => rw [block_alone h, List.mem_singleton] at hi; omega
  | first mem indices => rw [block_first mem indices] at hi; exact lt_of_mem_indices mem hi
  | inner mem indices lt le => rw [block_inner mem indices lt le] at hi; cases hi

theorem flatMap_block (d : Dialect) (chain : Chain) :
    (List.range chain.length).flatMap (d.block chain) = List.range chain.length := by
  refine List.Pairwise.eq_of_mem_iff (r := (· < ·)) ?_ List.pairwise_lt_range fun i => ?_
  · refine List.pairwise_flatMap.mpr ⟨fun i _ => block_ascending d chain i, ?_⟩
    exact List.pairwise_lt_range.imp fun hij k hk l hl => block_before hij hk hl
  · rw [List.mem_flatMap, List.mem_range]
    constructor
    · rintro ⟨j, hj, hi⟩
      exact lt_of_mem_block (List.mem_range.mp hj) hi
    · intro hi
      obtain ⟨j, hj, hmem⟩ := exists_mem_block hi
      exact ⟨j, List.mem_range.mpr hj, hmem⟩

theorem formAt_of_mem (hr : r ∈ d.runs chain) (hi : i ∈ r.indices) : d.formAt choice chain i = choice r := by
  rw [formAt, runAt?_eq_some.mpr ⟨hr, hi⟩]

theorem name_of_mem_indices (hr : r ∈ d.runs chain) (hi : i ∈ r.indices) (hj : j ∈ r.indices)
    (ha : chain.get? i = some a) (hb : chain.get? j = some b) : a.name = b.name := by
  obtain ⟨isMember, hfolds, hindices⟩ := runsOf_of_mem_runs hr
  have hof := run_of_runsOf hindices
  obtain ⟨a', ha', hma⟩ := hof.member i hi
  obtain ⟨b', hb', hmb⟩ := hof.member j hj
  obtain rfl := Option.some.inj (ha.symm.trans ha')
  obtain rfl := Option.some.inj (hb.symm.trans hb')
  exact hfolds.name hma hmb

theorem actions_foldedAt? (hi : i < chain.length) :
    ((d.foldedAt? choice chain i).toList.flatMap fun call => call.args.map fun a => (call.name, a)) =
      (d.block chain i).flatMap (d.actionsAt choice chain) := by
  cases d.stands chain i with
  | alone h =>
    rw [foldedAt?_alone h, block_alone h, List.flatMap_singleton, actionsAt, formAt, h]
    simp only [ThrowForm.change_keep]
  | inner mem indices lt le =>
    rw [foldedAt?_inner mem indices lt le, block_inner mem indices lt le]
    rfl
  | @first r n mem indices =>
    obtain ⟨call, hcall⟩ : ∃ call, chain.get? i = some call := ⟨_, List.getElem?_eq_getElem hi⟩
    have hfirst : i ∈ r.indices := mem_of_range' indices (Nat.le_refl i) (by omega)
    rw [foldedAt?_first mem indices, block_first mem indices, hcall, Option.map_some, Option.toList_some,
      List.flatMap_singleton, Run.fold, callsAt, List.filterMap_eq_flatMap_toList, List.flatMap_assoc, List.map_map,
      List.map_flatMap]
    refine List.flatMap_congr fun k hk => ?_
    rw [actionsAt, formAt_of_mem mem hk, List.map_flatMap]
    refine List.flatMap_congr fun c hc => ?_
    rw [name_of_mem_indices mem hk hfirst (Option.mem_toList.mp hc) hcall]
    rfl

theorem actions_folded (d : Dialect) (choice : Run → ThrowForm) (chain : Chain) :
    actions (d.folded choice chain) = (List.range chain.length).flatMap (d.actionsAt choice chain) := by
  have hblocks : (List.range chain.length).flatMap (fun i => (d.foldedAt? choice chain i).toList.flatMap
      fun call => call.args.map fun a => (call.name, a)) =
        (List.range chain.length).flatMap fun i => (d.block chain i).flatMap (d.actionsAt choice chain) :=
    List.flatMap_congr fun i hi => actions_foldedAt? (List.mem_range.mp hi)
  rw [actions, folded, List.filterMap_eq_flatMap_toList, List.flatMap_assoc, hblocks, ← List.flatMap_assoc,
    flatMap_block]

theorem setterRange_of_mem (hr : r ∈ d.runs chain) (hi : i ∈ r.indices) :
    d.setterStart chain ≤ i ∧ i < d.setterStart chain + (d.setterCalls chain).length := by
  obtain ⟨isMember, -, hindices⟩ := runsOf_of_mem_runs hr
  have hstretched := runsOf_stretched d chain isMember
  have hle := hstretched.le _ hindices i hi
  obtain ⟨call, hcall, -⟩ := hstretched.member _ hindices i hi
  have hlt := (List.getElem?_eq_some_iff.mp hcall).1
  omega

theorem getElem?_setterCalls (hle : d.setterStart chain ≤ i)
    (hlt : i < d.setterStart chain + (d.setterCalls chain).length) :
    (d.setterCalls chain)[i - d.setterStart chain]? = chain.get? i := by
  have hcall := List.getElem?_eq_getElem (l := d.setterCalls chain) (i := i - d.setterStart chain) (by omega)
  rw [hcall, get?_of_setterCalls hle hcall]

theorem exists_mem_runsOf (hle : d.setterStart chain ≤ i)
    (hlt : i + 1 < d.setterStart chain + (d.setterCalls chain).length) (ha : chain.get? i = some a)
    (hb : chain.get? (i + 1) = some b) (hma : isMember a = true) (hmb : isMember b = true) :
    ∃ s ∈ d.runsOf chain isMember, i ∈ s ∧ i + 1 ∈ s := by
  have hsecond := getElem?_setterCalls (i := i + 1) (by omega) hlt
  rw [show i + 1 - d.setterStart chain = i - d.setterStart chain + 1 by omega, hb] at hsecond
  have hfirst := getElem?_setterCalls hle (by omega)
  rw [ha] at hfirst
  obtain ⟨s, hs, his, hjs⟩ := stretches_maximal (i := d.setterStart chain) hfirst hsecond hma hmb
  rw [Nat.add_sub_cancel' hle] at his hjs
  have hlength : 1 < s.length := by
    obtain ⟨lo, n, rfl, -⟩ := (stretches_stretched _ _ _).interval s hs
    rw [List.mem_range'_1] at his hjs
    rw [List.length_range']
    omega
  exact ⟨s, List.mem_filter.mpr ⟨hs, by simpa using hlength⟩, his, hjs⟩

theorem exists_run_of_neighbours (hfolds : d.Folds isMember) (hle : d.setterStart chain ≤ i)
    (hlt : i + 1 < d.setterStart chain + (d.setterCalls chain).length) (ha : chain.get? i = some a)
    (hb : chain.get? (i + 1) = some b) (hma : isMember a = true) (hmb : isMember b = true) :
    ∃ r ∈ d.runs chain, i ∈ r.indices ∧ i + 1 ∈ r.indices := by
  obtain ⟨s, hs, hi, hj⟩ := exists_mem_runsOf hle hlt ha hb hma hmb
  obtain ⟨r, hr, rfl⟩ := exists_run hfolds hs
  exact ⟨r, hr, hi, hj⟩

theorem member_of_mem_indices (hfolds : d.Folds isMember) (hr : r ∈ d.runs chain) (hi : i ∈ r.indices)
    (hj : j ∈ r.indices) (ha : chain.get? i = some a) (hma : isMember a = true) :
    ∃ b, chain.get? j = some b ∧ isMember b = true := by
  obtain ⟨isMember', hfolds', hindices⟩ := runsOf_of_mem_runs hr
  have hof := run_of_runsOf hindices
  obtain ⟨a', ha', hma'⟩ := hof.member i hi
  obtain rfl := Option.some.inj (ha.symm.trans ha')
  obtain rfl := hfolds.eq_of_member hfolds' hma hma'
  exact hof.member j hj

theorem member_foldedAt? (hfolds : d.Folds isMember) (h : d.foldedAt? choice chain i = some a) :
    ∃ b, chain.get? i = some b ∧ isMember a = isMember b := by
  cases d.stands chain i with
  | alone halone =>
    rw [foldedAt?_alone halone] at h
    exact ⟨a, h, rfl⟩
  | inner mem indices lt le =>
    rw [foldedAt?_inner mem indices lt le] at h
    cases h
  | @first r n mem indices =>
    rw [foldedAt?_first mem indices] at h
    obtain ⟨b, hb, rfl⟩ := Option.map_eq_some_iff.mp h
    have hi : i ∈ r.indices := mem_of_range' indices (Nat.le_refl i) (by omega)
    obtain ⟨isMember', hfolds', hindices⟩ := runsOf_of_mem_runs mem
    obtain ⟨b', hb', hmember⟩ := (run_of_runsOf hindices).member i hi
    obtain rfl := Option.some.inj (hb.symm.trans hb')
    have hargs := hfolds'.args hmember
    refine ⟨b, hb, hfolds.congr rfl rfl ?_⟩
    have hcalls : b ∈ callsAt chain r.indices := List.mem_filterMap.mpr ⟨i, hi, hb⟩
    rw [hargs, Run.fold, List.isEmpty_eq_false_iff, Ne, List.map_eq_nil_iff, List.flatMap_eq_nil_iff]
    intro hnil
    rw [hnil b hcalls] at hargs
    cases hargs

theorem exists_run_of_foldedAt?_eq_none (hi : i < chain.length) (h : d.foldedAt? choice chain i = none) :
    0 < i ∧ ∃ r ∈ d.runs chain, i - 1 ∈ r.indices ∧ i ∈ r.indices := by
  have hcall : chain.get? i = some _ := List.getElem?_eq_getElem hi
  cases d.stands chain i with
  | alone halone =>
    rw [foldedAt?_alone halone, hcall] at h
    cases h
  | first mem indices =>
    rw [foldedAt?_first mem indices, hcall] at h
    cases h
  | @inner r lo n mem indices lt le =>
    exact ⟨by omega, r, mem, mem_of_range' indices (by omega) (by omega), mem_of_range' indices (by omega) le⟩

theorem member_between (hfolds : d.Folds isMember) (ha : d.foldedAt? choice chain i = some a)
    (hma : isMember a = true) (hj : j ≤ chain.length)
    (hbetween : ∀ k, i < k → k < j → d.foldedAt? choice chain k = none) :
    ∀ k, i ≤ k → k < j → ∃ c, chain.get? k = some c ∧ isMember c = true := by
  intro k hik
  induction k, hik using Nat.le_induction with
  | base =>
    intro _
    obtain ⟨c, hc, hmc⟩ := member_foldedAt? hfolds ha
    exact ⟨c, hc, hmc ▸ hma⟩
  | succ k hik ih =>
    intro hkj
    obtain ⟨c, hc, hmc⟩ := ih (by omega)
    obtain ⟨-, r, hr, hk, hk'⟩ := exists_run_of_foldedAt?_eq_none (by omega) (hbetween (k + 1) (by omega) hkj)
    exact member_of_mem_indices hfolds hr hk hk' hc hmc

theorem not_member_of_neighbours (hfolds : d.Folds isMember) (hle : d.setterStart chain ≤ i) (hij : i < j)
    (hlt : j < d.setterStart chain + (d.setterCalls chain).length) (ha : d.foldedAt? choice chain i = some a)
    (hb : d.foldedAt? choice chain j = some b)
    (hbetween : ∀ k, i < k → k < j → d.foldedAt? choice chain k = none) (hma : isMember a = true) :
    isMember b = false := by
  rw [← Bool.not_eq_true]
  intro hmb
  obtain ⟨b', hb', hmb'⟩ := member_foldedAt? hfolds hb
  rw [hmb] at hmb'
  have hj := (List.getElem?_eq_some_iff.mp hb').1
  obtain ⟨k, rfl⟩ : ∃ k, j = k + 1 := ⟨j - 1, by omega⟩
  obtain ⟨c, hc, hmc⟩ := member_between hfolds ha hma (Nat.le_of_lt hj) hbetween k (by omega) (by omega)
  obtain ⟨r, hr, hk, hk'⟩ := exists_run_of_neighbours hfolds (by omega) hlt hc hb' hmc hmb'.symm
  obtain ⟨lo, n, hlo⟩ := interval_of_mem_runs hr
  rw [hlo, List.mem_range'_1] at hk hk'
  rw [foldedAt?_inner hr hlo (by omega) hk'.2] at hb
  cases hb

theorem foldedAt?_outside
    (h : ¬ (d.setterStart chain ≤ i ∧ i < d.setterStart chain + (d.setterCalls chain).length)) :
    d.foldedAt? choice chain i = chain.get? i := by
  cases hrun : d.runAt? chain i with
  | none => exact foldedAt?_alone hrun
  | some r =>
    obtain ⟨hr, hi⟩ := runAt?_eq_some.mp hrun
    exact absurd (setterRange_of_mem hr hi) h

theorem not_isEntry_foldedAt? (h : d.foldedAt? choice chain i = some a) (hb : chain.get? i = some b)
    (hentry : d.isEntry b = false) : d.isEntry a = false := by
  cases hrun : d.runAt? chain i with
  | none =>
    rw [foldedAt?_alone hrun, hb] at h
    rwa [← Option.some.inj h]
  | some r =>
    obtain ⟨hr, hi⟩ := runAt?_eq_some.mp hrun
    obtain ⟨isMember, hfolds, hindices⟩ := runsOf_of_mem_runs hr
    obtain ⟨b', hb', hmember⟩ := (run_of_runsOf hindices).member i hi
    obtain ⟨c, hc, hsame⟩ := member_foldedAt? hfolds h
    obtain rfl := Option.some.inj (hb'.symm.trans hc)
    exact not_isEntry_of_isSetter (hfolds.isSetter (hsame.trans hmember))

def foldedSetters (d : Dialect) (choice : Run → ThrowForm) (chain : Chain) : List Call :=
  (List.range' (d.setterStart chain) (d.setterCalls chain).length).filterMap (d.foldedAt? choice chain)

theorem setterCalls_folded_mockFirst (ho : d.order = .mockFirst) (choice : Run → ThrowForm) (chain : Chain) :
    d.setterCalls (d.folded choice chain) = d.foldedSetters choice chain := by
  have hstart : d.setterStart chain = min 1 chain.length := by simp only [setterStart, ho]
  have hlength : (d.setterCalls chain).length = chain.length - 1 := by
    simp only [setterCalls, ho, List.length_drop, Chain.length]
  have hdrop : d.setterCalls (d.folded choice chain) = (d.folded choice chain).calls.drop 1 := by
    simp only [setterCalls, ho]
  rw [foldedSetters, hdrop, hstart, hlength, folded, List.range_eq_range']
  cases hn : chain.length with
  | zero => rfl
  | succ n =>
    have hlt : 0 < chain.length := by omega
    have hfirst : d.foldedAt? choice chain 0 = some _ :=
      (foldedAt?_outside (by omega)).trans (List.getElem?_eq_getElem hlt)
    rw [List.range'_succ, List.filterMap_cons_some hfirst]
    simp

theorem setterCalls_folded_actionFirst (ho : d.order = .actionFirst) (choice : Run → ThrowForm) (chain : Chain) :
    d.setterCalls (d.folded choice chain) = d.foldedSetters choice chain := by
  have hstart : d.setterStart chain = 0 := by simp only [setterStart, ho]
  have hsetters : d.setterCalls chain = chain.calls.takeWhile (!d.isEntry ·) := by simp only [setterCalls, ho]
  have hsplit : chain.calls = d.setterCalls chain ++ chain.calls.dropWhile (!d.isEntry ·) := by
    rw [hsetters, List.takeWhile_append_dropWhile]
  have hlength : chain.length = (d.setterCalls chain).length + (chain.calls.dropWhile (!d.isEntry ·)).length := by
    rw [← List.length_append, ← hsplit, Chain.length]
  have htake : d.setterCalls (d.folded choice chain) = (d.folded choice chain).calls.takeWhile (!d.isEntry ·) := by
    simp only [setterCalls, ho]
  rw [foldedSetters, htake, hstart, folded, List.range_eq_range', hlength, ← List.range'_append_1,
    List.filterMap_append, List.takeWhile_append_of_pos, Nat.zero_add]
  · -- the first call behind the setters takes the mock
    cases hrest : chain.calls.dropWhile (!d.isEntry ·) with
    | nil => simp
    | cons entry rest =>
      have hentry : d.isEntry entry = true := by
        have hhead := List.head?_dropWhile_not (!d.isEntry ·) chain.calls
        simpa [hrest] using hhead
      have hget : chain.get? (d.setterCalls chain).length = some entry := by
        rw [Chain.get?, hsplit, hrest, List.getElem?_append_right (Nat.le_refl _), Nat.sub_self]
        rfl
      have hfolded : d.foldedAt? choice chain (d.setterCalls chain).length = some entry :=
        (foldedAt?_outside (by omega)).trans hget
      rw [List.length_cons, List.range'_succ, List.filterMap_cons_some hfolded,
        List.takeWhile_cons_of_neg (by simp [hentry]), List.append_nil]
  · intro a ha
    obtain ⟨i, hi, hfolded⟩ := List.mem_filterMap.mp ha
    rw [List.mem_range'_1, Nat.zero_add] at hi
    obtain ⟨b, hb, -⟩ := member_foldedAt? (.inl rfl) hfolded
    have hmem : b ∈ chain.calls.takeWhile (!d.isEntry ·) := by
      rw [← hsetters]
      refine List.mem_of_getElem? (i := i - d.setterStart chain) ?_
      rw [getElem?_setterCalls (by omega) (by omega), hb]
    have hnot := List.all_eq_true.mp List.all_takeWhile b hmem
    simp only [Bool.not_eq_true'] at hnot ⊢
    exact not_isEntry_foldedAt? hfolded hb hnot

theorem setterCalls_folded (d : Dialect) (choice : Run → ThrowForm) (chain : Chain) :
    d.setterCalls (d.folded choice chain) = d.foldedSetters choice chain := by
  cases ho : d.order with
  | mockFirst => exact setterCalls_folded_mockFirst ho choice chain
  | actionFirst => exact setterCalls_folded_actionFirst ho choice chain

theorem isChain_filterMap_range' {β : Type} {g : Nat → Option β} {R : β → β → Prop} {lo n : Nat}
    (h : ∀ i j a b, lo ≤ i → i < j → j < lo + n → g i = some a → g j = some b →
      (∀ k, i < k → k < j → g k = none) → R a b) : ((List.range' lo n).filterMap g).IsChain R := by
  induction n generalizing lo with
  | zero => exact .nil
  | succ n ih =>
    have hrest : ((List.range' (lo + 1) n).filterMap g).IsChain R :=
      ih fun i j a b hi hij hj => h i j a b (by omega) hij (by omega)
    rw [List.range'_succ]
    cases hlo : g lo with
    | none => rwa [List.filterMap_cons_none hlo]
    | some a =>
      rw [List.filterMap_cons_some hlo, List.isChain_cons]
      refine ⟨fun b hb => ?_, hrest⟩
      rw [Option.mem_def, List.head?_filterMap, List.findSome?_eq_some_iff] at hb
      obtain ⟨before, j, after, hsplit, hj, hbefore⟩ := hb
      obtain ⟨m, hm, rfl, hafter⟩ := List.range'_eq_append_iff.mp hsplit
      obtain ⟨rfl, hpos, -⟩ := List.range'_eq_cons_iff.mp hafter.symm
      refine h lo _ a b (Nat.le_refl lo) (by omega) (by omega) hlo hj fun k hk hkj => hbefore k ?_
      rw [List.mem_range'_1]
      omega

theorem runsOf_eq_nil (h : (d.setterCalls chain).IsChain fun a b => isMember a = true → isMember b = false) :
    d.runsOf chain isMember = [] := by
  refine List.filter_eq_nil_iff.mpr fun s hs => ?_
  have hstretched := stretches_stretched isMember (d.setterStart chain) (d.setterCalls chain)
  obtain ⟨lo, n, rfl, hle⟩ := hstretched.interval s hs
  rw [List.length_range', decide_eq_true_eq]
  intro hlength
  obtain ⟨a, ha, hma⟩ := hstretched.member _ hs lo (List.mem_range'_1.mpr (by omega))
  obtain ⟨b, hb, hmb⟩ := hstretched.member _ hs (lo + 1) (List.mem_range'_1.mpr (by omega))
  rw [show lo + 1 - d.setterStart chain = lo - d.setterStart chain + 1 by omega] at hb
  obtain ⟨hi, rfl⟩ := List.getElem?_eq_some_iff.mp ha
  obtain ⟨hj, rfl⟩ := List.getElem?_eq_some_iff.mp hb
  have hnot := List.isChain_iff_getElem.mp h _ hj hma
  rw [hmb] at hnot
  cases hnot

theorem runsOf_folded (hfolds : d.Folds isMember) (choice : Run → ThrowForm) (chain : Chain) :
    d.runsOf (d.folded choice chain) isMember = [] := by
  refine runsOf_eq_nil ?_
  rw [setterCalls_folded]
  exact isChain_filterMap_range' fun i j a b hle hij hlt ha hb hbetween hma =>
    not_member_of_neighbours hfolds hle hij hlt ha hb hbetween hma

theorem runs_folded (d : Dialect) (choice : Run → ThrowForm) (chain : Chain) :
    d.throwRuns (d.folded choice chain) = [] ∧ d.returnRuns (d.folded choice chain) = [] ∧
      d.foldableCalls (d.folded choice chain) = [] := by
  have hthrow : d.throwRuns (d.folded choice chain) = [] := by
    rw [throwRuns, runsOf_folded (.inl rfl), List.map_nil]
  have hreturn : d.returnRuns (d.folded choice chain) = [] := by
    rw [returnRuns, runsOf_folded (.inr rfl), List.map_nil]
  refine ⟨hthrow, hreturn, ?_⟩
  rw [foldableCalls, hthrow, hreturn]
  rfl

end Dialect

end MockDialect.Stubbing
