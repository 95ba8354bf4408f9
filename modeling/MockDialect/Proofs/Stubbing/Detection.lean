import Mathlib.Data.List.Nodup
import Mathlib.Data.List.Sort
import MockDialect.Proofs.Stubbing.Folded

namespace MockDialect

theorem Order.sortBy_eq_insertionSort {α : Type} (r : α → α → Prop) [DecidableRel r] (xs : List α) :
    Order.sortBy (fun a b => decide (r a b)) xs = xs.insertionSort r := by
  have hinsert (a : α) (ys : List α) :
      Order.insertBy (fun a b => decide (r a b)) a ys = ys.orderedInsert r a := by
    induction ys with
    | nil => rfl
    | cons b ys ih => simp [Order.insertBy, ih]
  induction xs with
  | nil => rfl
  | cons a xs ih =>
    rw [List.insertionSort_cons, ← ih, ← hinsert]
    rfl

namespace Stubbing

open Chain

/-- At least two neighbouring positions that have a property and are not next to another that has it. -/
structure MaximalStretch (P : Nat → Prop) (indices : List Nat) : Prop where
  interval : ∃ lo n, indices = List.range' lo (n + 2)
  member : ∀ i ∈ indices, P i
  left : ∀ i, i + 1 ∈ indices → P i → i ∈ indices
  right : ∀ i ∈ indices, P (i + 1) → i + 1 ∈ indices

namespace MaximalStretch

variable {P : Nat → Prop} {s t : List Nat} {i : Nat}

theorem subset_of_mem (hs : MaximalStretch P s) (ht : MaximalStretch P t) (his : i ∈ s) (hit : i ∈ t) : s ⊆ t := by
  obtain ⟨lo, n, rfl⟩ := hs.interval
  obtain ⟨lo', n', rfl⟩ := ht.interval
  rw [List.mem_range'_1] at his hit
  -- where the second ended too early, the first would have a position to add to it
  have hlo : lo' ≤ lo := by
    by_contra hlt
    obtain ⟨k, rfl⟩ : ∃ k, lo' = k + 1 := ⟨lo' - 1, by omega⟩
    have hk := ht.left k (List.mem_range'_1.mpr (by omega)) (hs.member k (List.mem_range'_1.mpr (by omega)))
    rw [List.mem_range'_1] at hk
    omega
  have hhi : lo + (n + 2) ≤ lo' + (n' + 2) := by
    by_contra hlt
    have hk := ht.right (lo' + n' + 1) (List.mem_range'_1.mpr (by omega))
      (hs.member _ (List.mem_range'_1.mpr (by omega)))
    rw [List.mem_range'_1] at hk
    omega
  intro j hj
  rw [List.mem_range'_1] at hj ⊢
  omega

theorem eq_of_mem (hs : MaximalStretch P s) (ht : MaximalStretch P t) (his : i ∈ s) (hit : i ∈ t) : s = t := by
  have hmem (j : Nat) : j ∈ s ↔ j ∈ t := ⟨(hs.subset_of_mem ht his hit ·), (ht.subset_of_mem hs hit his ·)⟩
  obtain ⟨lo, n, rfl⟩ := hs.interval
  obtain ⟨lo', n', rfl⟩ := ht.interval
  exact List.Pairwise.eq_of_mem_iff List.pairwise_lt_range' List.pairwise_lt_range' hmem

end MaximalStretch

namespace Dialect

/-- A call in the place of a setter that meets a condition. -/
def SetterAt (d : Dialect) (chain : Chain) (isMember : Call → Bool) (i : Nat) : Prop :=
  d.setterStart chain ≤ i ∧ i < d.setterStart chain + (d.setterCalls chain).length ∧
    ∃ call, chain.get? i = some call ∧ isMember call = true

variable {d : Dialect} {chain : Chain} {isMember : Call → Bool} {indices : List Nat} {i : Nat}

theorem setterAt_of_mem (h : indices ∈ d.runsOf chain isMember) (hi : i ∈ indices) : d.SetterAt chain isMember i := by
  have hstretched := runsOf_stretched d chain isMember
  have hle := hstretched.le _ h i hi
  obtain ⟨call, hcall, hmember⟩ := hstretched.member _ h i hi
  have hlt := (List.getElem?_eq_some_iff.mp hcall).1
  exact ⟨hle, by omega, call, get?_of_setterCalls hle hcall, hmember⟩

theorem exists_mem_runsOf_of_setterAt (hi : d.SetterAt chain isMember i) (hj : d.SetterAt chain isMember (i + 1)) :
    ∃ s ∈ d.runsOf chain isMember, i ∈ s ∧ i + 1 ∈ s := by
  obtain ⟨hle, -, a, ha, hma⟩ := hi
  obtain ⟨-, hlt, b, hb, hmb⟩ := hj
  exact exists_mem_runsOf hle hlt ha hb hma hmb

theorem eq_of_mem_runsOf {s t : List Nat} (hs : s ∈ d.runsOf chain isMember) (ht : t ∈ d.runsOf chain isMember)
    (his : i ∈ s) (hit : i ∈ t) : s = t := by
  by_contra hne
  have hsymm : Std.Symm fun s t : List Nat => s.Disjoint t := ⟨fun _ _ h _ hs ht => h ht hs⟩
  have hapart : (d.runsOf chain isMember).Pairwise List.Disjoint := by
    refine (runsOf_stretched d chain isMember).ascending.imp fun hlt k hk hk' => ?_
    exact Nat.lt_irrefl k (hlt k hk k hk')
  exact hapart.forall hs ht hne his hit

theorem mem_runsOf_iff : indices ∈ d.runsOf chain isMember ↔ MaximalStretch (d.SetterAt chain isMember) indices := by
  have hmaximal : ∀ {s}, s ∈ d.runsOf chain isMember → MaximalStretch (d.SetterAt chain isMember) s := by
    intro s hs
    refine ⟨interval_of_mem_runsOf hs, fun i hi => setterAt_of_mem hs hi, fun i hi hleft => ?_, fun i hi hright => ?_⟩
    · obtain ⟨t, ht, hit, hjt⟩ := exists_mem_runsOf_of_setterAt hleft (setterAt_of_mem hs hi)
      rwa [eq_of_mem_runsOf hs ht hi hjt]
    · obtain ⟨t, ht, hit, hjt⟩ := exists_mem_runsOf_of_setterAt (setterAt_of_mem hs hi) hright
      rwa [eq_of_mem_runsOf hs ht hi hit]
  refine ⟨hmaximal, fun h => ?_⟩
  obtain ⟨lo, n, hlo⟩ := h.interval
  have hfirst : lo ∈ indices := by rw [hlo, List.mem_range'_1]; omega
  have hsecond : lo + 1 ∈ indices := by rw [hlo, List.mem_range'_1]; omega
  obtain ⟨t, ht, hit, -⟩ := exists_mem_runsOf_of_setterAt (h.member lo hfirst) (h.member _ hsecond)
  rwa [h.eq_of_mem (hmaximal ht) hfirst hit]

theorem exists_throwRun_iff : (∃ r ∈ d.throwRuns chain, r.indices = indices) ↔ indices ∈ d.runsOf chain d.isThrow := by
  simp [throwRuns]

theorem exists_returnRun_iff :
    (∃ r ∈ d.returnRuns chain, r.indices = indices) ↔ indices ∈ d.runsOf chain d.isReturn := by
  simp [returnRuns]

theorem mem_drop_one_iff (h : indices ∈ d.runsOf chain isMember) :
    i ∈ indices.drop 1 ↔ ∃ k, i = k + 1 ∧ k ∈ indices ∧ k + 1 ∈ indices := by
  obtain ⟨lo, n, rfl⟩ := interval_of_mem_runsOf h
  rw [List.range'_succ, List.drop_one, List.tail_cons, ← List.range'_succ]
  simp only [List.mem_range'_1]
  constructor
  · intro hi
    exact ⟨i - 1, by omega, by omega, by omega⟩
  · rintro ⟨k, rfl, hk, hk'⟩
    omega

theorem exists_mem_drop_one_iff : (∃ s ∈ d.runsOf chain isMember, i ∈ s.drop 1) ↔
    ∃ k, i = k + 1 ∧ d.SetterAt chain isMember k ∧ d.SetterAt chain isMember (k + 1) := by
  constructor
  · rintro ⟨s, hs, hi⟩
    obtain ⟨k, rfl, hk, hk'⟩ := (mem_drop_one_iff hs).mp hi
    exact ⟨k, rfl, setterAt_of_mem hs hk, setterAt_of_mem hs hk'⟩
  · rintro ⟨k, rfl, hk, hk'⟩
    obtain ⟨s, hs, hks, hks'⟩ := exists_mem_runsOf_of_setterAt hk hk'
    exact ⟨s, hs, (mem_drop_one_iff hs).mpr ⟨k, rfl, hks, hks'⟩⟩

theorem mem_foldableCalls_iff : i ∈ d.foldableCalls chain ↔ ∃ k, i = k + 1 ∧
    (d.SetterAt chain d.isThrow k ∧ d.SetterAt chain d.isThrow (k + 1) ∨
      d.SetterAt chain d.isReturn k ∧ d.SetterAt chain d.isReturn (k + 1)) := by
  have hruns : i ∈ d.foldableCalls chain ↔ (∃ s ∈ d.runsOf chain d.isThrow, i ∈ s.drop 1) ∨
      ∃ s ∈ d.runsOf chain d.isReturn, i ∈ s.drop 1 := by
    rw [foldableCalls, (Order.sortBy_perm _ _).mem_iff, List.flatMap_append, List.mem_append]
    simp [throwRuns, returnRuns, Run.foldable]
  rw [hruns, exists_mem_drop_one_iff, exists_mem_drop_one_iff, ← exists_or]
  simp only [and_or_left]

theorem runs_disjoint (d : Dialect) (chain : Chain) :
    (d.throwRuns chain ++ d.returnRuns chain).Pairwise fun r s => r.indices.Disjoint s.indices := by
  refine (runs_apart d chain).imp fun h k hr hs => ?_
  rcases h with h | h
  · exact Nat.lt_irrefl k (h k hr k hs)
  · exact Nat.lt_irrefl k (h k hs k hr)

theorem foldableCalls_ascending (d : Dialect) (chain : Chain) : (d.foldableCalls chain).Pairwise (· < ·) := by
  have hnodup : ((d.throwRuns chain ++ d.returnRuns chain).flatMap (·.foldable)).Nodup := by
    refine List.nodup_flatMap.mpr ⟨fun r hr => ?_, (runs_disjoint d chain).imp fun h k hr hs => ?_⟩
    · obtain ⟨lo, n, hlo⟩ := interval_of_mem_runs hr
      rw [Run.foldable, hlo]
      exact List.Nodup.sublist (List.drop_sublist 1 _) List.nodup_range'
    · exact h (List.mem_of_mem_drop hr) (List.mem_of_mem_drop hs)
  rw [foldableCalls, Order.sortBy_eq_insertionSort]
  have hsorted := List.pairwise_insertionSort (· ≤ ·) ((d.throwRuns chain ++ d.returnRuns chain).flatMap (·.foldable))
  have hdistinct := (List.perm_insertionSort (· ≤ ·) _).nodup_iff.mpr hnodup
  exact (hsorted.and hdistinct).imp fun h => Nat.lt_of_le_of_ne h.1 h.2

/-- The runs of each kind are the longest stretches of setters of that kind, no two runs have a call in common, and the
calls that can be folded are, in order, those with a setter of their kind right before them. -/
theorem run_detection_exact (d : Dialect) (chain : Chain) :
    (∀ i, i ∈ d.foldableCalls chain ↔ ∃ k, i = k + 1 ∧
      (d.SetterAt chain d.isThrow k ∧ d.SetterAt chain d.isThrow (k + 1) ∨
        d.SetterAt chain d.isReturn k ∧ d.SetterAt chain d.isReturn (k + 1))) ∧
    (d.foldableCalls chain).Pairwise (· < ·) ∧
    (∀ indices, (∃ r ∈ d.throwRuns chain, r.indices = indices) ↔
      MaximalStretch (d.SetterAt chain d.isThrow) indices) ∧
    (∀ indices, (∃ r ∈ d.returnRuns chain, r.indices = indices) ↔
      MaximalStretch (d.SetterAt chain d.isReturn) indices) ∧
    (d.throwRuns chain ++ d.returnRuns chain).Pairwise fun r s => r.indices.Disjoint s.indices :=
  ⟨fun _ => mem_foldableCalls_iff, foldableCalls_ascending d chain,
    fun _ => exists_throwRun_iff.trans mem_runsOf_iff, fun _ => exists_returnRun_iff.trans mem_runsOf_iff,
    runs_disjoint d chain⟩

theorem run_detection_exact_side_by_side :
    let call (name : String) (receiver : Api.Receiver) : Call :=
      ⟨name, ⟨0, 1⟩, ⟨0, 1⟩, ⟨0, 1⟩, "(a)", [⟨"a", ⟨0, 1⟩, .reference, none⟩], none, "", receiver⟩
    let chain : Chain := ⟨[call "doThrow" (.entry .mockito), call "doThrow" (.object .stubber),
      call "doReturn" (.object .stubber), call "doReturn" (.object .stubber), call "when" (.object .stubber),
      call "b" .unknown]⟩
    MaximalStretch (mockitoDo.SetterAt chain mockitoDo.isThrow) [0, 1] ∧
      MaximalStretch (mockitoDo.SetterAt chain mockitoDo.isReturn) [2, 3] ∧
      ¬ (mockitoDo.SetterAt chain mockitoDo.isThrow 1 ∧ mockitoDo.SetterAt chain mockitoDo.isThrow 2) := by
  intro call chain
  obtain ⟨hfoldable, -, hthrows, hreturns, -⟩ := run_detection_exact mockitoDo chain
  refine ⟨(hthrows [0, 1]).mp (by decide), (hreturns [2, 3]).mp (by decide), fun h => ?_⟩
  have hmem : 2 ∈ mockitoDo.foldableCalls chain := (hfoldable 2).mpr ⟨1, rfl, .inl h⟩
  exact absurd hmem (by decide)

end Dialect

end Stubbing

end MockDialect
