import MockDialect.Proofs.Stubbing.Parts

namespace MockDialect.Stubbing.Dialect

open Api Chain Java Source

variable {d : Dialect} {chain : Chain}

/-- With the action first, what a chain without flaw is made of. -/
structure Arranged (d : Dialect) (chain : Chain) (entry : Call) (mock : Arg) (stubbed : Call) : Prop where
  calls : chain.calls = d.setterCalls chain ++ [entry, stubbed]
  setterStart : d.setterStart chain = 0
  setterStop : d.setterStart chain + (d.setterCalls chain).length = chain.length - 2
  lastButOne : chain.get? (chain.length - 2) = some entry
  isEntry : d.isEntry entry = true
  args : entry.args = [mock]
  stubbedMock : d.stubbedMock? chain = some mock.text
  last : chain.calls.getLast? = some stubbed
  stubbedCall : d.stubbedCall? chain = some stubbed

theorem exists_arranged (ho : d.order = .actionFirst) (hcontinues : chain.calls.IsChain Call.Continues)
    (hflaw : d.flaw? chain = none) : ∃ entry mock stubbed, d.Arranged chain entry mock stubbed := by
  obtain ⟨front, entry, last, hcalls⟩ := exists_last_two ho hflaw
  obtain ⟨-, hentry, -⟩ := (flaw?_actionFirst ho hcalls).mp hflaw
  rw [hcalls] at hcontinues
  have hfront := not_isEntry_of_mem_front ho hcontinues hentry
  have hsplit : chain.calls = front ++ entry :: [last] := hcalls
  obtain ⟨hsetters, hfrom⟩ := split_actionFirst ho hsplit hfront hentry
  obtain ⟨mock, hargs⟩ : ∃ mock, entry.args = [mock] := by
    simp only [Dialect.isEntry, ho, Bool.and_eq_true, beq_iff_eq] at hentry
    exact List.length_eq_one_iff.mp hentry.2
  have hstart : d.setterStart chain = 0 := by simp only [setterStart, ho]
  have hlength : chain.length = front.length + 2 := by simp [Chain.length, hcalls]
  refine ⟨entry, mock, last, ?_, hstart, ?_, ?_, hentry, hargs, ?_, ?_, ?_⟩
  · rw [hsetters, hcalls]
  · rw [hstart, hsetters, hlength, Nat.zero_add, Nat.add_sub_cancel]
  · simp [hlength, Chain.get?, hcalls]
  · simp [stubbedMock?, ho, hfrom, Call.argText?, hargs]
  · simp [hcalls]
  · simp [stubbedCall?, ho, hfrom]

/-- Along a chain that is read from a file, the table of return types says what each call but the first is made on.
With the action first, one call at most takes the mock, and in a chain without flaw it is the last but one: the setters
are all calls in front of it, the mock is its argument and the stubbed call comes last. -/
theorem entry_unique_last_but_one (f : File) (hf : f.Sound) {c : Cursor} (hc : Cursor.In f.tree c) :
    let chain := chainOf f c
    (∀ i call cls, chain.get? i = some call → call.receiver = .entry cls → i = 0) ∧
    (∀ i a b, chain.get? i = some a → chain.get? (i + 1) = some b →
      (∀ type, b.receiver = .object type ↔ a.receiver.result a.name = some type) ∧
      (b.receiver = .unknown ↔ a.receiver.result a.name = none)) ∧
    ∀ d : Dialect, d.order = .actionFirst →
      (∀ i j a b, chain.get? i = some a → chain.get? j = some b → d.isEntry a = true → d.isEntry b = true → i = j) ∧
      (d.begins chain = true → d.flaw? chain = none →
        ∃ entry mock stubbed, d.Arranged chain entry mock stubbed) := by
  intro chain
  have hcontinues : chain.calls.IsChain Call.Continues := continues_chainOf hf hc
  refine ⟨fun i call cls => eq_zero_of_receiver hcontinues, fun i a b ha hb => ?_, fun d ho => ⟨?_, ?_⟩⟩
  · have hab : b.receiver = a.successor := continues_of_getElem? hcontinues ha hb
    rw [hab]
    exact ⟨fun type => Call.successor_eq_object_iff, Call.successor_eq_unknown_iff⟩
  · exact fun i j a b => eq_of_isEntry ho hcontinues
  · exact fun _ => exists_arranged ho hcontinues

theorem entry_unique_last_but_one_two_setters :
    let f := File.read "import org.mockito.*;class T\x7bvoid t()\x7bMockito.doReturn(1).doThrow(e).when(a).b();\x7d\x7d"
    ∃ c, Cursor.In f.tree c ∧ mockitoDo.begins (chainOf f c) = true ∧ mockitoDo.flaw? (chainOf f c) = none ∧
      (∀ i call, (chainOf f c).get? i = some call → mockitoDo.isEntry call = true → i = 2) ∧
      ∃ entry mock stubbed, mockitoDo.Arranged (chainOf f c) entry mock stubbed ∧ mock.text = "a" ∧
        stubbed.name = "b" := by
  generalize hfile : File.read _ = f
  dsimp only
  have hcomputed : ((f.callAt? 69).any fun c => mockitoDo.begins (chainOf f c) &&
      (mockitoDo.flaw? (chainOf f c)).isNone && (mockitoDo.stubbedMock? (chainOf f c) == some "a") &&
      ((mockitoDo.stubbedCall? (chainOf f c)).any (·.name == "b")) && (chainOf f c).length == 4) = true := by
    subst hfile
    decide +kernel
  obtain ⟨c, hc, hcomputed⟩ := (Option.any_eq_true _ _).mp hcomputed
  simp only [Bool.and_eq_true, Option.isNone_iff_eq_none, beq_iff_eq] at hcomputed
  obtain ⟨⟨⟨⟨hbegins, hflaw⟩, hmock⟩, hstubbed⟩, hlength⟩ := hcomputed
  have hplace : Cursor.In f.tree c := ((Cursor.In.innermost .root).nearest hc).1
  have hf : f.Sound := hfile ▸ File.read_sound _
  obtain ⟨-, -, hentry⟩ := entry_unique_last_but_one f hf hplace
  obtain ⟨hunique, harranged⟩ := hentry mockitoDo rfl
  obtain ⟨entry, mock, stubbed, h⟩ := harranged hbegins hflaw
  refine ⟨c, hplace, hbegins, hflaw, fun i call hcall hisEntry => ?_, entry, mock, stubbed, h, ?_, ?_⟩
  · have hlast := h.lastButOne
    rw [hlength] at hlast
    exact hunique i 2 call entry hcall hlast hisEntry h.isEntry
  · exact Option.some.inj (h.stubbedMock.symm.trans hmock)
  · rw [h.stubbedCall] at hstubbed
    simpa using hstubbed

end MockDialect.Stubbing.Dialect
