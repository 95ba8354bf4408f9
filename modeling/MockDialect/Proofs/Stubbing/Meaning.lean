import MockDialect.Proofs.Chain.Spelled
import MockDialect.Recognition.Dialect

namespace MockDialect.Stubbing

open Api Chain Recognition Source

/-- What is done when a call of a mock comes in. -/
structure Meaning where
  actions : List (Setter × String)
  mock : String
  call : String
  deriving DecidableEq

namespace Dialect

def action? (d : Dialect) (call : Call) : Option (Setter × String) :=
  (d.setterOf? call.name).map fun setter => (setter, call.argsText)

/-- What a chain says in a dialect; nothing if a call in the place of a setter is none. -/
def meaning? (d : Dialect) (chain : Chain) : Option Meaning :=
  match d.stubbedMock? chain, d.stubbedCall? chain with
  | some mock, some stubbed =>
    if (d.setterCalls chain).all d.isSetter then
      some ⟨(d.setterCalls chain).filterMap d.action?, mock, stubbed.tail⟩
    else none
  | _, _ => none

/-- Every call of a chain has one place: it is a setter, the one that takes the mock, or the stubbed call. -/
def Accounts (d : Dialect) (chain : Chain) : Prop :=
  ∃ entry stubbed, d.isEntry entry = true ∧ d.stubbedCall? chain = some stubbed ∧
    match d.order with
    | .mockFirst =>
      chain.calls = entry :: d.setterCalls chain ∧ ∃ arg, entry.args = [arg] ∧ arg.kind = .call stubbed
    | .actionFirst => chain.calls = d.setterCalls chain ++ [entry, stubbed]

variable {d e : Dialect} {chain : Chain} {setter : Setter} {method : String}

theorem setterName_of_setterOf? (h : d.setterOf? method = some setter) : d.setterName setter = some method := by
  simpa using List.find?_some h

theorem ne_entryName_of_setterName (h : d.setterName setter = some method) : method ≠ d.entryName := by
  cases d <;> cases setter <;> simp only [setterName, Option.some.injEq, reduceCtorEq] at h <;>
    subst h <;> decide

theorem methodResult_of_setterName (h : d.setterName setter = some method) :
    methodResult d.carrier method = some d.carrier := by
  cases d <;> cases setter <;> simp only [setterName, Option.some.injEq, reduceCtorEq] at h <;>
    subst h <;> decide

theorem opens_of_setterName (ho : d.order = .actionFirst) (h : d.setterName setter = some method) :
    Names.throughClass d.entryClass method = .entry d.entryClass ∧
      staticResult d.entryClass method = some d.carrier := by
  cases d <;> cases ho <;> cases setter <;> simp only [setterName, Option.some.injEq, reduceCtorEq] at h <;>
    subst h <;> decide

theorem opens_of_mockFirst (ho : d.order = .mockFirst) :
    Names.throughClass d.entryClass d.entryName = .entry d.entryClass ∧
      staticResult d.entryClass d.entryName = some d.carrier := by
  cases d <;> cases ho <;> decide

theorem methodResult_entryName (ho : d.order = .actionFirst) : methodResult d.carrier d.entryName = none := by
  cases d <;> cases ho <;> decide

theorem begins_mockFirst (ho : d.order = .mockFirst) :
    d.begins chain = true ↔ ∃ first, chain.first? = some first ∧ d.isEntry first = true := by
  unfold begins
  cases chain.first? with
  | none => simp
  | some first => simp [ho]

theorem begins_actionFirst (ho : d.order = .actionFirst) :
    d.begins chain = true ↔ ∃ first, chain.first? = some first ∧ first.receiver = .entry d.entryClass ∧
      ∃ setter, d.setterName setter = some first.name := by
  unfold begins
  cases chain.first? with
  | none => simp
  | some first =>
    simp only [ho, Bool.and_eq_true, beq_iff_eq, Option.isSome_iff_exists, Option.some.injEq, exists_eq_left']
    exact and_congr_right fun _ =>
      ⟨fun ⟨s, hs⟩ => ⟨s, setterName_of_setterOf? hs⟩, fun ⟨s, hs⟩ => ⟨s, setterOf?_setterName hs⟩⟩

theorem first_of_begins (h : d.begins chain = true) :
    ∃ first, chain.first? = some first ∧ first.receiver = .entry d.entryClass ∧
      match d.order with
      | .mockFirst => first.name = d.entryName
      | .actionFirst => ∃ setter, d.setterName setter = some first.name := by
  cases ho : d.order with
  | mockFirst =>
    obtain ⟨first, hf, he⟩ := (begins_mockFirst ho).mp h
    simp only [isEntry, ho, Bool.and_eq_true, beq_iff_eq] at he
    exact ⟨first, hf, he.1.2, he.1.1⟩
  | actionFirst => exact (begins_actionFirst ho).mp h

theorem eq_of_entryClass_of_order (hclass : d.entryClass = e.entryClass) (horder : d.order = e.order) :
    d = e := by
  cases d <;> cases e <;> simp_all [entryClass, order]

theorem entryName_eq_of_entryClass (hclass : d.entryClass = e.entryClass) : d.entryName = e.entryName := by
  cases d <;> cases e <;> simp_all [entryClass, entryName]

theorem begins_unique (hd : d.begins chain = true) (he : e.begins chain = true) : d = e := by
  obtain ⟨first, hfirst, hdclass, hdname⟩ := first_of_begins hd
  obtain ⟨first', hfirst', heclass, hename⟩ := first_of_begins he
  obtain rfl : first = first' := Option.some.inj (hfirst ▸ hfirst')
  have hclass : d.entryClass = e.entryClass := Receiver.entry.inj (hdclass.symm.trans heclass)
  have hentry := entryName_eq_of_entryClass hclass
  apply eq_of_entryClass_of_order hclass
  -- of two dialects with one class, only one has the call that takes the mock in front
  cases hdo : d.order <;> cases heo : e.order <;> simp only [hdo, heo] at hdname hename
  · rfl
  · obtain ⟨setter, hs⟩ := hename
    exact absurd (hdname.trans hentry) (ne_entryName_of_setterName hs)
  · obtain ⟨setter, hs⟩ := hdname
    exact absurd (hename.trans hentry.symm) (ne_entryName_of_setterName hs)
  · rfl

end Dialect

end MockDialect.Stubbing
