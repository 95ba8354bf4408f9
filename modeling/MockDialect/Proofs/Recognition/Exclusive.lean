import MockDialect.Proofs.Stubbing.Meaning

namespace MockDialect

open Chain

namespace Verification.Dialect

variable {d e : Dialect} {chain : Chain} {call : Call}

theorem isEntry_of_begins (h : d.begins chain = true) :
    ∃ first, chain.first? = some first ∧ d.isEntry first = true := by
  obtain ⟨calls⟩ := chain
  unfold begins at h
  split at h
  case h_1 => cases h
  case h_2 => cases h
  case h_3 entry should rest hcalls =>
    obtain rfl : calls = _ := hcalls
    exact ⟨entry, rfl, (Bool.and_eq_true_iff.mp h).1⟩
  case h_4 entry rest _ _ hcalls =>
    obtain rfl : calls = _ := hcalls
    exact ⟨entry, rfl, h⟩

/-- The method that a chain of a dialect begins with. -/
def method : Dialect → String
  | thenShould => "then"
  | mockitoVerify | inOrderVerify | inOrderVerifyStatic | staticVerify => "verify"

/-- What the first call of a chain of a dialect is made on. -/
def opening : Dialect → Api.Receiver
  | mockitoVerify => .entry .mockito
  | thenShould => .entry .bddMockito
  | inOrderVerify | inOrderVerifyStatic => .object .inOrder
  | staticVerify => .object .mockedStatic

theorem opening_of_isEntry (h : d.isEntry call = true) : call.name = d.method ∧ call.receiver = d.opening := by
  cases d <;> simp only [isEntry, Bool.and_eq_true, beq_iff_eq] at h
  · exact h.1.1
  · exact h.1
  · exact h.1
  · exact h.1
  · exact h.1.1

theorem not_inOrderVerifyStatic (h : inOrderVerify.isEntry call = true) :
    inOrderVerifyStatic.isEntry call = false := by
  simp only [isEntry, Bool.and_eq_true, beq_iff_eq] at h
  obtain ⟨⟨hname, hreceiver⟩, hargs⟩ := h
  simp only [isEntry, hname, hreceiver, BEq.rfl, Bool.and_self, Bool.true_and]
  split at hargs
  case h_1 mock heq => rw [heq]
  case h_2 mock mode heq =>
    simp only [Bool.and_eq_true, bne_iff_ne, ne_eq, Bool.not_eq_true'] at hargs
    rw [heq]
    simp [hargs]
  case h_3 => cases hargs

theorem eq_or_of_opening (h : d.opening = e.opening) : d = e ∨
    d = inOrderVerify ∧ e = inOrderVerifyStatic ∨ d = inOrderVerifyStatic ∧ e = inOrderVerify := by
  revert h
  cases d <;> cases e <;> decide

theorem isEntry_unique (hd : d.isEntry call = true) (he : e.isEntry call = true) : d = e := by
  have hopening : d.opening = e.opening := (opening_of_isEntry hd).2.symm.trans (opening_of_isEntry he).2
  rcases eq_or_of_opening hopening with rfl | ⟨rfl, rfl⟩ | ⟨rfl, rfl⟩
  · rfl
  · exact absurd he (Bool.not_eq_true _ ▸ not_inOrderVerifyStatic hd)
  · exact absurd hd (Bool.not_eq_true _ ▸ not_inOrderVerifyStatic he)

end Verification.Dialect

namespace Recognition.Dialect

variable {chain : Chain}

section

variable {d : Stubbing.Dialect} {e : Verification.Dialect}

theorem method_ne_entryName (h : .entry d.entryClass = e.opening) : e.method ≠ d.entryName := by
  revert h
  cases d <;> cases e <;> decide

theorem setterName_ne_method (h : .entry d.entryClass = e.opening) (setter : Stubbing.Setter) :
    d.setterName setter ≠ some e.method := by
  revert h
  cases d <;> cases e <;> cases setter <;> decide

theorem not_verification (hd : d.begins chain = true) : e.begins chain = false := by
  obtain ⟨first, hfirst, hreceiver, hname⟩ := Stubbing.Dialect.first_of_begins hd
  rw [← Bool.not_eq_true]
  intro he
  obtain ⟨first', hfirst', hentry⟩ := Verification.Dialect.isEntry_of_begins he
  obtain rfl := Option.some.inj (hfirst.symm.trans hfirst')
  obtain ⟨hmethod, hopening⟩ := Verification.Dialect.opening_of_isEntry hentry
  rw [hreceiver] at hopening
  rw [hmethod] at hname
  split at hname
  · exact method_ne_entryName hopening hname
  · obtain ⟨setter, hsetter⟩ := hname
    exact setterName_ne_method hopening setter hsetter

end

theorem begins_unique {d e : Dialect} (hd : d.begins chain = true) (he : e.begins chain = true) : d = e := by
  cases d with
  | stubbing d =>
    cases e with
    | stubbing e => rw [Stubbing.Dialect.begins_unique hd he]
    | verification e => exact absurd he (by rw [begins, not_verification hd]; decide)
  | verification d =>
    cases e with
    | stubbing e => exact absurd hd (by rw [begins, not_verification he]; decide)
    | verification e =>
      obtain ⟨first, hfirst, hd⟩ := Verification.Dialect.isEntry_of_begins hd
      obtain ⟨first', hfirst', he⟩ := Verification.Dialect.isEntry_of_begins he
      obtain rfl := Option.some.inj (hfirst.symm.trans hfirst')
      rw [Verification.Dialect.isEntry_unique hd he]

theorem name_of_begins {d : Dialect} (h : d.begins chain = true) :
    ∃ first, chain.first? = some first ∧ first.name ≠ "" := by
  cases d with
  | stubbing d =>
    obtain ⟨first, hfirst, -, hname⟩ := Stubbing.Dialect.first_of_begins h
    refine ⟨first, hfirst, ?_⟩
    split at hname
    · rw [hname]
      cases d <;> decide
    · obtain ⟨setter, hsetter⟩ := hname
      intro hempty
      rw [hempty] at hsetter
      revert hsetter
      cases d <;> cases setter <;> decide
  | verification d =>
    obtain ⟨first, hfirst, hentry⟩ := Verification.Dialect.isEntry_of_begins h
    refine ⟨first, hfirst, ?_⟩
    rw [(Verification.Dialect.opening_of_isEntry hentry).1]
    cases d <;> decide

theorem mem_all (d : Dialect) : d ∈ all := by
  cases d with
  | stubbing d => cases d <;> decide
  | verification d => cases d <;> decide

end Recognition.Dialect

theorem Recognition.classify?_eq_some_iff {chain : Chain} {d : Dialect} :
    classify? chain = some d ↔ d.begins chain = true := by
  constructor
  · intro h
    exact List.find?_some (p := fun e : Dialect => e.begins chain) h
  · intro h
    have hsome := (List.find?_isSome (p := fun e : Dialect => e.begins chain)).mpr ⟨d, d.mem_all, h⟩
    obtain ⟨e, he⟩ := Option.isSome_iff_exists.mp hsome
    rw [classify?, he, Dialect.begins_unique h (List.find?_some (p := fun e : Dialect => e.begins chain) he)]

namespace Recognition

variable {chain : Chain} {d : Dialect}

theorem Dialect.nodup_all : all.Nodup := by decide

theorem mem_matching : d ∈ matching chain ↔ d.begins chain = true :=
  List.mem_filter.trans (and_iff_right d.mem_all)

theorem matching_eq_singleton_iff : matching chain = [d] ↔ d.begins chain = true := by
  constructor
  · intro h
    exact mem_matching.mp (h ▸ .head [])
  · intro h
    have hnodup : (matching chain).Nodup := Dialect.nodup_all.filter _
    refine List.perm_singleton.mp ((List.perm_ext_iff_of_nodup hnodup (List.pairwise_singleton _ d)).mpr fun e => ?_)
    rw [mem_matching, List.mem_singleton]
    exact ⟨fun he => Dialect.begins_unique he h, fun he => he ▸ h⟩

theorem classify?_eq_none_iff : classify? chain = none ↔ matching chain = [] := by
  rw [classify?_eq_head?_matching, List.head?_eq_none_iff]

/-- Stubbing dialects begin on a class, not on an object, and no verifying method is called `when`. -/
theorem begins_of_isMockedStaticStubbing (h : Stubbing.isMockedStaticStubbing chain = true) (d : Dialect) :
    d.begins chain = false := by
  unfold Stubbing.isMockedStaticStubbing at h
  split at h
  case h_1 => cases h
  case h_2 call hcall =>
    simp only [Bool.and_eq_true, beq_iff_eq] at h
    obtain ⟨⟨hname, hreceiver⟩, -⟩ := h
    rw [← Bool.not_eq_true]
    intro hbegins
    cases d with
    | stubbing d =>
      obtain ⟨first, hfirst, hentry, -⟩ := Stubbing.Dialect.first_of_begins hbegins
      obtain rfl := Option.some.inj (hcall.symm.trans hfirst)
      rw [hreceiver] at hentry
      cases hentry
    | verification d =>
      obtain ⟨first, hfirst, hentry⟩ := Verification.Dialect.isEntry_of_begins hbegins
      obtain rfl := Option.some.inj (hcall.symm.trans hfirst)
      have hmethod := hname.symm.trans (Verification.Dialect.opening_of_isEntry hentry).1
      revert hmethod
      cases d <;> decide

theorem classification_exclusive (chain : Chain) :
    (∀ d, d ∈ matching chain ↔ d.begins chain = true) ∧ (matching chain).length ≤ 1 ∧
      (∀ d, classify? chain = some d ↔ matching chain = [d]) ∧
      (classify? chain = none ↔ matching chain = []) ∧
      (Stubbing.isMockedStaticStubbing chain = true → ∀ d : Dialect, d.begins chain = false) := by
  refine ⟨fun d => mem_matching, ?_, fun d => ?_, classify?_eq_none_iff, begins_of_isMockedStaticStubbing⟩
  · cases hmatching : matching chain with
    | nil => exact Nat.zero_le 1
    | cons d rest =>
      have hbegins := mem_matching.mp (hmatching ▸ List.mem_cons_self)
      rw [← hmatching, matching_eq_singleton_iff.mpr hbegins]
      exact Nat.le_refl 1
  · rw [classify?_eq_some_iff, matching_eq_singleton_iff]

theorem classification_exclusive_mocked_static :
    let call : Call := ⟨"when", ⟨0, 12⟩, ⟨2, 6⟩, ⟨6, 12⟩, "(U::a)", [⟨"U::a", ⟨7, 11⟩, .methodReference, none⟩],
      some ⟨"m", ⟨0, 1⟩, .reference⟩, ".", .object .mockedStatic⟩
    Stubbing.isMockedStaticStubbing ⟨[call]⟩ = true ∧ ∀ d : Dialect, d.begins ⟨[call]⟩ = false := by
  intro call
  have hstubs : Stubbing.isMockedStaticStubbing ⟨[call]⟩ = true := by decide
  exact ⟨hstubs, (classification_exclusive ⟨[call]⟩).2.2.2.2 hstubs⟩

end Recognition

end MockDialect
