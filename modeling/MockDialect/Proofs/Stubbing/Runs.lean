import MockDialect.Stubbing.Run

namespace MockDialect.Stubbing

open Chain

/-- Stretches of members among elements that begin at a position. -/
structure Stretched {α : Type} (isMember : α → Bool) (i : Nat) (xs : List α) (ss : List (List Nat)) : Prop where
  interval : ∀ s ∈ ss, ∃ lo n, s = List.range' lo (n + 1) ∧ i ≤ lo
  ascending : ss.Pairwise fun s t => ∀ a ∈ s, ∀ b ∈ t, a < b
  member : ∀ s ∈ ss, ∀ a ∈ s, ∃ x, xs[a - i]? = some x ∧ isMember x = true

variable {α : Type} {isMember : α → Bool} {i : Nat} {x : α} {xs : List α} {ss : List (List Nat)}

theorem Stretched.le (h : Stretched isMember i xs ss) : ∀ s ∈ ss, ∀ a ∈ s, i ≤ a := by
  intro s hs a ha
  obtain ⟨lo, n, rfl, hlo⟩ := h.interval s hs
  have := (List.mem_range'_1.mp ha).1
  omega

theorem Stretched.skip (h : Stretched isMember (i + 1) xs ss) : Stretched isMember i (x :: xs) ss where
  interval := fun s hs => by
    obtain ⟨lo, n, he, hlo⟩ := h.interval s hs
    exact ⟨lo, n, he, by omega⟩
  ascending := h.ascending
  member := fun s hs a ha => by
    have hle := h.le s hs a ha
    obtain ⟨y, hy, hm⟩ := h.member s hs a ha
    refine ⟨y, ?_, hm⟩
    rw [show a - i = (a - (i + 1)) + 1 by omega, List.getElem?_cons_succ, hy]

theorem Stretched.single (hx : isMember x = true) (h : Stretched isMember (i + 1) xs ss) :
    Stretched isMember i (x :: xs) ([i] :: ss) where
  interval := fun s hs => by
    rcases List.mem_cons.mp hs with rfl | hs
    · exact ⟨i, 0, rfl, Nat.le_refl i⟩
    · exact (h.skip (x := x)).interval s hs
  ascending := by
    refine .cons (fun s hs a ha b hb => ?_) h.ascending
    have := h.le s hs b hb
    rw [List.mem_singleton.mp ha]
    omega
  member := fun s hs a ha => by
    rcases List.mem_cons.mp hs with rfl | hs
    · rw [List.mem_singleton.mp ha]
      exact ⟨x, by simp, hx⟩
    · exact h.skip.member s hs a ha

theorem Stretched.extend {js : List Nat} (hx : isMember x = true)
    (h : Stretched isMember (i + 1) xs (((i + 1) :: js) :: ss)) :
    Stretched isMember i (x :: xs) ((i :: (i + 1) :: js) :: ss) where
  interval := fun s hs => by
    rcases List.mem_cons.mp hs with rfl | hs
    · obtain ⟨lo, n, he, -⟩ := h.interval _ (.head ss)
      obtain rfl : i + 1 = lo := by
        rw [List.range'_succ] at he
        exact (List.cons.inj he).1
      exact ⟨i, n + 1, by rw [he, ← List.range'_succ], Nat.le_refl i⟩
    · exact (h.skip (x := x)).interval s (.tail _ hs)
  ascending := by
    obtain ⟨hfirst, hrest⟩ := List.pairwise_cons.mp h.ascending
    refine .cons (fun s hs a ha b hb => ?_) hrest
    rcases List.mem_cons.mp ha with rfl | ha
    · exact h.le s (.tail _ hs) b hb
    · exact hfirst s hs a ha b hb
  member := fun s hs a ha => by
    rcases List.mem_cons.mp hs with rfl | hs
    · rcases List.mem_cons.mp ha with rfl | ha
      · exact ⟨x, by simp, hx⟩
      · exact h.skip.member _ (.head ss) a ha
    · exact h.skip.member s (.tail _ hs) a ha

theorem stretches_stretched (isMember : α → Bool) (i : Nat) (xs : List α) :
    Stretched isMember i xs (stretches isMember i xs) := by
  induction xs generalizing i with
  | nil => exact ⟨nofun, .nil, nofun⟩
  | cons x xs ih =>
    have hrest := ih (i + 1)
    rw [stretches]
    cases hx : isMember x with
    | false => exact hrest.skip
    | true =>
      simp only [if_true]
      split
      case h_1 j js more he =>
        rw [he] at hrest
        split
        case isTrue hj =>
          subst hj
          exact hrest.extend hx
        case isFalse => exact he ▸ hrest.single hx
      case h_2 => exact hrest.single hx

theorem stretches_cons_member (i : Nat) (hx : isMember x = true) (xs : List α) :
    ∃ js more, stretches isMember i (x :: xs) = (i :: js) :: more := by
  rw [stretches, hx]
  simp only [if_true]
  split
  case h_1 => split <;> exact ⟨_, _, rfl⟩
  case h_2 => exact ⟨_, _, rfl⟩

theorem stretches_cons_subset (i : Nat) (x : α) (xs : List α) :
    ∀ s ∈ stretches isMember (i + 1) xs, ∃ t ∈ stretches isMember i (x :: xs), s ⊆ t := by
  intro s hs
  rw [stretches]
  cases hx : isMember x with
  | false => exact ⟨s, hs, List.Subset.refl s⟩
  | true =>
    simp only [if_true]
    split
    case h_2 => exact ⟨s, .tail _ hs, List.Subset.refl s⟩
    case h_1 j js more he =>
      split
      case isFalse => exact ⟨s, .tail _ hs, List.Subset.refl s⟩
      case isTrue =>
        rw [he] at hs
        rcases List.mem_cons.mp hs with rfl | hs
        · exact ⟨_, .head _, List.subset_cons_self _ _⟩
        · exact ⟨s, .tail _ hs, List.Subset.refl s⟩

theorem stretches_maximal {k : Nat} {y : α} (hx : xs[k]? = some x) (hy : xs[k + 1]? = some y)
    (hmx : isMember x = true) (hmy : isMember y = true) :
    ∃ s ∈ stretches isMember i xs, i + k ∈ s ∧ i + k + 1 ∈ s := by
  induction xs generalizing i k with
  | nil => cases hx
  | cons z zs ih =>
    cases k with
    | zero =>
      obtain rfl := Option.some.inj hx
      obtain ⟨ws, rfl⟩ : ∃ ws, zs = y :: ws := by
        cases zs with
        | nil => cases hy
        | cons w ws => exact ⟨ws, by rw [Option.some.inj hy]⟩
      obtain ⟨js, more, he⟩ := stretches_cons_member (i + 1) hmy ws
      refine ⟨i :: (i + 1) :: js, ?_, .head _, .tail _ (.head _)⟩
      rw [stretches, he, hmx]
      simp
    | succ k =>
      obtain ⟨s, hs, hfirst, hsecond⟩ := ih (i := i + 1) hx hy
      obtain ⟨t, ht, hst⟩ := stretches_cons_subset i z zs s hs
      refine ⟨t, ht, hst ?_, hst ?_⟩
      · rwa [show i + (k + 1) = i + 1 + k by omega]
      · rwa [show i + (k + 1) + 1 = i + 1 + k + 1 by omega]

/-- All of a run comes before another. -/
def Run.Precedes (r s : Run) : Prop := ∀ a ∈ r.indices, ∀ b ∈ s.indices, a < b

/-- Neighbouring calls of a chain that meet a condition. -/
structure Run.Of (chain : Chain) (isMember : Call → Bool) (r : Run) : Prop where
  interval : ∃ lo n, r.indices = List.range' lo (n + 1)
  member : ∀ a ∈ r.indices, ∃ call, chain.get? a = some call ∧ isMember call = true

theorem Run.Of.precedes_or {chain : Chain} {p q : Call → Bool} {r s : Run} (hr : r.Of chain p) (hs : s.Of chain q)
    (h : ∀ call, p call = true → q call = false) : r.Precedes s ∨ s.Precedes r := by
  obtain ⟨lo, n, hlo⟩ := hr.interval
  obtain ⟨lo', n', hlo'⟩ := hs.interval
  have hdisjoint : ∀ a ∈ r.indices, a ∉ s.indices := by
    intro a ha ha'
    obtain ⟨call, hcall, hp⟩ := hr.member a ha
    obtain ⟨call', hcall', hq⟩ := hs.member a ha'
    obtain rfl := Option.some.inj (hcall.symm.trans hcall')
    exact Bool.false_ne_true ((h call hp).symm.trans hq)
  -- disjoint intervals are ordered as their first positions are
  have hfirst := hdisjoint lo (by rw [hlo, List.mem_range'_1]; omega)
  have hfirst' : lo' ∉ r.indices := fun hmem => hdisjoint lo' hmem (by rw [hlo', List.mem_range'_1]; omega)
  unfold Precedes
  rw [hlo, List.mem_range'_1] at hfirst'
  rw [hlo', List.mem_range'_1] at hfirst
  simp only [hlo, hlo', List.mem_range'_1]
  rcases Nat.lt_or_ge lo lo' with hlt | hge
  · exact .inl fun a ha b hb => by omega
  · exact .inr fun a ha b hb => by omega

namespace Dialect

variable {d : Dialect} {chain : Chain}

theorem get?_of_setterCalls {k : Nat} {call : Call} (hk : d.setterStart chain ≤ k)
    (h : (d.setterCalls chain)[k - d.setterStart chain]? = some call) : chain.get? k = some call := by
  unfold setterStart setterCalls at *
  cases ho : d.order with
  | mockFirst =>
    simp only [ho] at hk h
    rw [List.getElem?_drop] at h
    obtain ⟨calls⟩ := chain
    cases calls with
    | nil => simp at h
    | cons c calls =>
      simp only [Chain.length, List.length_cons] at hk h
      rwa [show 1 + (k - min 1 (calls.length + 1)) = k by omega] at h
  | actionFirst =>
    simp only [ho, Nat.sub_zero] at h
    obtain ⟨rest, hrest⟩ := List.takeWhile_prefix (l := chain.calls) fun c => !d.isEntry c
    have hlt := (List.getElem?_eq_some_iff.mp h).1
    rw [Chain.get?, ← hrest, List.getElem?_append_left hlt, h]

theorem runsOf_stretched (d : Dialect) (chain : Chain) (isMember : Call → Bool) :
    Stretched isMember (d.setterStart chain) (d.setterCalls chain) (d.runsOf chain isMember) := by
  have h := stretches_stretched isMember (d.setterStart chain) (d.setterCalls chain)
  exact ⟨fun s hs => h.interval s (List.mem_filter.mp hs).1, h.ascending.sublist List.filter_sublist,
    fun s hs => h.member s (List.mem_filter.mp hs).1⟩

theorem run_of_runsOf {isMember : Call → Bool} {r : Run} (h : r.indices ∈ d.runsOf chain isMember) :
    r.Of chain isMember := by
  have hstretched := runsOf_stretched d chain isMember
  obtain ⟨lo, n, hlo, -⟩ := hstretched.interval _ h
  refine ⟨⟨lo, n, hlo⟩, fun a ha => ?_⟩
  obtain ⟨call, hcall, hmember⟩ := hstretched.member _ h a ha
  exact ⟨call, get?_of_setterCalls (hstretched.le _ h a ha) hcall, hmember⟩

theorem throwRuns_of {r : Run} (h : r ∈ d.throwRuns chain) : r.Of chain d.isThrow := by
  obtain ⟨indices, hindices, rfl⟩ := List.mem_map.mp h
  exact run_of_runsOf hindices

theorem returnRuns_of {r : Run} (h : r ∈ d.returnRuns chain) : r.Of chain d.isReturn := by
  obtain ⟨indices, hindices, rfl⟩ := List.mem_map.mp h
  exact run_of_runsOf hindices

theorem not_isReturn_of_isThrow {call : Call} (h : d.isThrow call = true) : d.isReturn call = false := by
  unfold isThrow at h
  unfold isReturn
  simp only [Bool.and_eq_true, beq_iff_eq] at h
  rw [h.1.1]
  cases d <;> rfl

theorem runs_of {r : Run} (h : r ∈ d.throwRuns chain ++ d.returnRuns chain) :
    ∃ isMember, r.Of chain isMember :=
  (List.mem_append.mp h).elim (fun h => ⟨_, throwRuns_of h⟩) fun h => ⟨_, returnRuns_of h⟩

theorem runs_apart (d : Dialect) (chain : Chain) :
    (d.throwRuns chain ++ d.returnRuns chain).Pairwise fun r s => r.Precedes s ∨ s.Precedes r := by
  refine List.pairwise_append.mpr ⟨?_, ?_, fun r hr s hs => ?_⟩
  · exact List.pairwise_map.mpr ((runsOf_stretched d chain d.isThrow).ascending.imp .inl)
  · exact List.pairwise_map.mpr ((runsOf_stretched d chain d.isReturn).ascending.imp .inl)
  · exact (throwRuns_of hr).precedes_or (returnRuns_of hs) fun _ => not_isReturn_of_isThrow

end Dialect

end MockDialect.Stubbing
