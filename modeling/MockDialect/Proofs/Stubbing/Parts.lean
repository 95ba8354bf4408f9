import MockDialect.Proofs.Stubbing.Meaning

namespace MockDialect.Stubbing

open Api Chain Recognition

structure Parts where
  setters : List Call
  entry : Call
  mock : String
  stubbed : Call

namespace Dialect

/-- A chain made of parts in the order of a dialect. -/
structure MadeOf (d : Dialect) (chain : Chain) (p : Parts) : Prop where
  entry : d.isEntry p.entry = true
  setters : ∀ c ∈ p.setters, d.isSetter c = true
  acts : p.setters ≠ []
  arranged : match d.order with
    | .mockFirst => chain.calls = p.entry :: p.setters ∧
        ∃ arg, p.entry.args = [arg] ∧ arg.kind = .call p.stubbed ∧ p.stubbed.qualifierText? = some p.mock
    | .actionFirst => chain.calls = p.setters ++ [p.entry, p.stubbed] ∧
        ∃ arg, p.entry.args = [arg] ∧ arg.kind = .reference ∧ arg.text = p.mock

variable {d : Dialect} {chain : Chain} {p : Parts} {call : Call}

theorem exists_setterName_of_isSetter (h : d.isSetter call = true) :
    ∃ setter, d.setterOf? call.name = some setter ∧ d.setterName setter = some call.name := by
  rw [isSetter, Bool.and_eq_true, Option.isSome_iff_exists] at h
  obtain ⟨⟨setter, hs⟩, -⟩ := h
  exact ⟨setter, hs, setterName_of_setterOf? hs⟩

theorem not_isEntry_of_isSetter (h : d.isSetter call = true) : d.isEntry call = false := by
  obtain ⟨setter, -, hs⟩ := exists_setterName_of_isSetter h
  have hname := ne_entryName_of_setterName hs
  unfold isEntry
  cases d.order <;> simp [hname]

theorem isSetter_of_carries {setter : Setter} (hname : d.setterName setter = some call.name)
    (hcarries : d.carries call.receiver = true) : d.isSetter call = true := by
  rw [isSetter, setterOf?_setterName hname, hcarries]
  rfl

theorem successor_of_setter {setter : Setter} (hname : d.setterName setter = some call.name)
    (hreceiver : call.receiver = .object d.carrier) : call.successor = .object d.carrier := by
  rw [Call.successor, hreceiver]
  simp only [Receiver.result, methodResult_of_setterName hname]

theorem receiver_of_setters {a : Call} {calls : List Call} (h : (a :: calls).IsChain Call.Continues)
    (ha : a.successor = .object d.carrier)
    (hnames : ∀ c ∈ calls, ∃ setter, d.setterName setter = some c.name) :
    ∀ c ∈ calls, c.receiver = .object d.carrier := by
  induction calls generalizing a with
  | nil => exact fun c hc => nomatch hc
  | cons b calls ih =>
    rw [List.isChain_cons_cons] at h
    have hb : b.receiver = .object d.carrier := h.1.trans ha
    obtain ⟨setter, hs⟩ := hnames b (.head calls)
    intro c hc
    rcases List.mem_cons.mp hc with rfl | hc
    · exact hb
    · exact ih h.2 (successor_of_setter hs hb) (fun c hc => hnames c (.tail b hc)) c hc

theorem split_actionFirst (ho : d.order = .actionFirst) {front rest : List Call} {entry : Call}
    (hcalls : chain.calls = front ++ entry :: rest) (hfront : ∀ c ∈ front, d.isEntry c = false)
    (hentry : d.isEntry entry = true) :
    d.setterCalls chain = front ∧ d.fromEntry chain = entry :: rest := by
  have hpos : ∀ c ∈ front, (!d.isEntry c) = true := fun c hc => by simp [hfront c hc]
  simp only [setterCalls, fromEntry, ho, hcalls]
  rw [List.takeWhile_append_of_pos hpos, List.dropWhile_append_of_pos hpos]
  simp [hentry]

theorem flaw?_actionFirst (ho : d.order = .actionFirst) {front : List Call} {entry last : Call}
    (hcalls : chain.calls = front ++ [entry, last]) : d.flaw? chain = none ↔
      front ≠ [] ∧ d.isEntry entry = true ∧ entry.args.all (·.isReference) = true := by
  have hlength : chain.length = front.length + 2 := by simp [Chain.length, hcalls]
  have hentry : chain.get? front.length = some entry := by simp [Chain.get?, hcalls]
  have hfront : front.length + 2 < 3 ↔ front = [] := by rw [← List.length_eq_zero_iff]; omega
  simp only [flaw?, ho, hlength, hfront, Nat.add_sub_cancel, hentry]
  by_cases hne : front = [] <;> by_cases he : d.isEntry entry = true <;>
    by_cases hr : entry.args.all (·.isReference) = true <;> simp [hne, he, hr]

theorem exists_last_two (ho : d.order = .actionFirst) (hflaw : d.flaw? chain = none) :
    ∃ front entry last, chain.calls = front ++ [entry, last] := by
  have hlength : ¬ chain.length < 3 := by
    intro hlt
    simp [flaw?, ho, hlt] at hflaw
  have htwo : (chain.calls.drop (chain.calls.length - 2)).length = 2 := by
    rw [Chain.length] at hlength
    rw [List.length_drop]
    omega
  obtain ⟨entry, last, hdrop⟩ := List.length_eq_two.mp htwo
  exact ⟨chain.calls.take (chain.calls.length - 2), entry, last, by rw [← hdrop, List.take_append_drop]⟩

namespace MadeOf

theorem split (h : d.MadeOf chain p) (ho : d.order = .actionFirst) :
    d.setterCalls chain = p.setters ∧ d.fromEntry chain = [p.entry, p.stubbed] := by
  have harranged := h.arranged
  simp only [ho] at harranged
  exact split_actionFirst ho harranged.1 (fun c hc => not_isEntry_of_isSetter (h.setters c hc)) h.entry

theorem setterCalls_eq (h : d.MadeOf chain p) : d.setterCalls chain = p.setters := by
  cases ho : d.order with
  | mockFirst =>
    have harranged := h.arranged
    simp only [ho] at harranged
    simp [setterCalls, ho, harranged.1]
  | actionFirst => exact (h.split ho).1

theorem stubbedCall?_eq (h : d.MadeOf chain p) : d.stubbedCall? chain = some p.stubbed := by
  have harranged := h.arranged
  unfold stubbedCall?
  cases ho : d.order with
  | mockFirst =>
    simp only [ho] at harranged
    obtain ⟨hcalls, arg, hargs, hkind, -⟩ := harranged
    simp [first?, hcalls, hargs, Arg.call?, hkind]
  | actionFirst => simp [(h.split ho).2]

theorem stubbedMock?_eq (h : d.MadeOf chain p) : d.stubbedMock? chain = some p.mock := by
  have harranged := h.arranged
  unfold stubbedMock?
  cases ho : d.order with
  | mockFirst =>
    simp only [ho] at harranged
    obtain ⟨-, -, -, -, hmock⟩ := harranged
    simp [h.stubbedCall?_eq, hmock]
  | actionFirst =>
    simp only [ho] at harranged
    obtain ⟨-, arg, hargs, -, hmock⟩ := harranged
    simp [(h.split ho).2, Call.argText?, hargs, hmock]

theorem flaw?_eq_none (h : d.MadeOf chain p) : d.flaw? chain = none := by
  have harranged := h.arranged
  cases ho : d.order with
  | mockFirst =>
    simp only [ho] at harranged
    have hacts := List.length_pos_iff.mpr h.acts
    have hlength : ¬ chain.length < 2 := by
      rw [Chain.length, harranged.1, List.length_cons]
      omega
    simp [flaw?, ho, hlength]
  | actionFirst =>
    simp only [ho] at harranged
    obtain ⟨hcalls, arg, hargs, hkind, -⟩ := harranged
    exact (flaw?_actionFirst ho hcalls).mpr ⟨h.acts, h.entry, by simp [hargs, Arg.isReference, hkind]⟩

theorem accounts (h : d.MadeOf chain p) : d.Accounts chain := by
  have harranged := h.arranged
  refine ⟨p.entry, p.stubbed, h.entry, h.stubbedCall?_eq, ?_⟩
  rw [h.setterCalls_eq]
  cases ho : d.order with
  | mockFirst =>
    simp only [ho] at harranged ⊢
    obtain ⟨hcalls, arg, hargs, hkind, -⟩ := harranged
    exact ⟨hcalls, arg, hargs, hkind⟩
  | actionFirst =>
    simp only [ho] at harranged ⊢
    exact harranged.1

theorem meaning?_eq (h : d.MadeOf chain p) :
    d.meaning? chain = some ⟨p.setters.filterMap d.action?, p.mock, p.stubbed.tail⟩ := by
  have hsetters : p.setters.all d.isSetter = true := List.all_eq_true.mpr h.setters
  simp [meaning?, h.stubbedMock?_eq, h.stubbedCall?_eq, h.setterCalls_eq, hsetters]

end MadeOf

theorem not_isEntry_behind (ho : d.order = .actionFirst) {calls : List Call} {i j : Nat} {a b : Call}
    (hcontinues : calls.IsChain Call.Continues) (ha : calls[i]? = some a) (hb : calls[j]? = some b) (hij : i < j)
    (hentry : d.isEntry a = true) : d.isEntry b = false := by
  rw [← Bool.not_eq_true]
  intro hentry'
  simp only [isEntry, ho, Bool.and_eq_true, beq_iff_eq] at hentry hentry'
  have hunknown : a.successor = .unknown := by
    rw [Call.successor, hentry.1.2, hentry.1.1]
    simp only [Receiver.result, methodResult_entryName ho]
  obtain ⟨hi, rfl⟩ := List.getElem?_eq_some_iff.mp ha
  have hbehind : b ∈ calls.drop (i + 1) := by
    refine List.mem_of_getElem? (i := j - (i + 1)) ?_
    rw [List.getElem?_drop, Nat.add_sub_cancel' hij, hb]
  have hrest := hcontinues.drop i
  rw [List.drop_eq_getElem_cons hi] at hrest
  have hreceiver := receiver_unknown hrest hunknown b hbehind
  rw [hentry'.1.2] at hreceiver
  cases hreceiver

theorem eq_of_isEntry (ho : d.order = .actionFirst) {calls : List Call} {i j : Nat} {a b : Call}
    (hcontinues : calls.IsChain Call.Continues) (ha : calls[i]? = some a) (hb : calls[j]? = some b)
    (hentry : d.isEntry a = true) (hentry' : d.isEntry b = true) : i = j := by
  rcases Nat.lt_trichotomy i j with hlt | heq | hgt
  · rw [not_isEntry_behind ho hcontinues ha hb hlt hentry] at hentry'
    cases hentry'
  · exact heq
  · rw [not_isEntry_behind ho hcontinues hb ha hgt hentry'] at hentry
    cases hentry

theorem not_isEntry_of_mem_front (ho : d.order = .actionFirst) {front : List Call} {entry last : Call}
    (hcontinues : (front ++ [entry, last]).IsChain Call.Continues) (hentry : d.isEntry entry = true) :
    ∀ c ∈ front, d.isEntry c = false := by
  intro c hc
  rw [← Bool.not_eq_true]
  intro hisEntry
  obtain ⟨i, hi, rfl⟩ := List.getElem_of_mem hc
  have hfront : (front ++ [entry, last])[i]? = some front[i] := by
    rw [List.getElem?_append_left hi, List.getElem?_eq_getElem hi]
  have hbehind : (front ++ [entry, last])[front.length]? = some entry := by simp
  exact Nat.ne_of_lt hi (eq_of_isEntry ho hcontinues hfront hbehind hisEntry hentry)

/-- A chain without flaw whose calls are chained by their types is made of parts, if it begins like the
dialect and all calls in the place of setters are setters. -/
theorem exists_madeOf (hcontinues : chain.calls.IsChain Call.Continues) (hbegins : d.begins chain = true)
    (hflaw : d.flaw? chain = none) {stubbed : Call} {mock : String}
    (hstubbed : d.stubbedCall? chain = some stubbed) (hmock : d.stubbedMock? chain = some mock)
    (hsetters : ∀ c ∈ d.setterCalls chain, d.isSetter c = true) (hacts : d.setterCalls chain ≠ []) :
    ∃ entry, d.MadeOf chain ⟨d.setterCalls chain, entry, mock, stubbed⟩ := by
  obtain ⟨calls⟩ := chain
  cases ho : d.order with
  | mockFirst =>
    obtain ⟨entry, hfirst, hentry⟩ := (begins_mockFirst ho).mp hbegins
    obtain ⟨rest, rfl⟩ : ∃ rest, calls = entry :: rest := List.head?_eq_some_iff.mp hfirst
    have hcalls : d.setterCalls ⟨entry :: rest⟩ = rest := by simp [setterCalls, ho]
    refine ⟨entry, hentry, hsetters, hacts, ?_⟩
    simp only [ho, hcalls, true_and]
    -- the one argument of the entry call is the stubbed call
    have hsingle : isSingleCall entry.args = true := by
      simp only [isEntry, ho, Bool.and_eq_true] at hentry
      exact hentry.2
    obtain ⟨arg, hargs⟩ : ∃ arg, entry.args = [arg] := by
      unfold isSingleCall at hsingle
      split at hsingle
      case h_1 arg hargs => exact ⟨arg, hargs⟩
      case h_2 => cases hsingle
    have hcall : arg.call? = some stubbed := by simpa [stubbedCall?, ho, first?, hargs] using hstubbed
    refine ⟨arg, hargs, ?_, ?_⟩
    · unfold Arg.call? at hcall
      split at hcall
      case h_1 call hkind => rw [hkind, Option.some.inj hcall]
      case h_2 => cases hcall
    · simpa [stubbedMock?, ho, hstubbed] using hmock
  | actionFirst =>
    obtain ⟨front, entry, last, hcalls⟩ := exists_last_two ho hflaw
    obtain ⟨-, hentry, hreference⟩ := (flaw?_actionFirst ho hcalls).mp hflaw
    have hcalls : calls = front ++ [entry, last] := hcalls
    subst hcalls
    have hfront := not_isEntry_of_mem_front ho hcontinues hentry
    have hcalls : Chain.calls ⟨front ++ [entry, last]⟩ = front ++ entry :: [last] := rfl
    obtain ⟨hset, hfrom⟩ := split_actionFirst ho hcalls hfront hentry
    obtain rfl : last = stubbed := by simpa [stubbedCall?, ho, hfrom] using hstubbed
    refine ⟨entry, hentry, hsetters, hacts, ?_⟩
    simp only [ho, hset, true_and]
    obtain ⟨arg, hargs⟩ : ∃ arg, entry.args = [arg] := by
      simp only [isEntry, ho, Bool.and_eq_true, beq_iff_eq] at hentry
      exact List.length_eq_one_iff.mp hentry.2
    refine ⟨arg, hargs, ?_, by simpa [stubbedMock?, ho, hfrom, Call.argText?, hargs] using hmock⟩
    have hkind : arg.isReference = true := by simpa [hargs] using hreference
    unfold Arg.isReference at hkind
    split at hkind
    case h_1 heq => exact heq
    case h_2 => cases hkind

end Dialect

end MockDialect.Stubbing
