import MockDialect.Proofs.Recognition.Exclusive
import MockDialect.Verification.Target

namespace MockDialect.Verification

open Api Chain

namespace Dialect

variable {d : Dialect} {chain : Chain} {head : Head}

/-- The argument that says how often. -/
def modeArg? (d : Dialect) (chain : Chain) : Option Arg :=
  match d, chain.calls with
  | thenShould, _ :: should :: _ => should.args[if thenShould.isOrdered chain then 1 else 0]?
  | inOrderVerifyStatic, verify :: _ => verify.args[2]?
  | mockitoVerify, verify :: _ | inOrderVerify, verify :: _ | staticVerify, verify :: _ => verify.args[1]?
  | _, _ => none

def headLength : Dialect → Nat
  | thenShould => 2
  | mockitoVerify | inOrderVerify | inOrderVerifyStatic | staticVerify => 1

def goesOn : Dialect → Bool
  | mockitoVerify | thenShould | inOrderVerify => true
  | inOrderVerifyStatic | staticVerify => false

/-- A head with the arguments that it is taken from. -/
structure Heads (d : Dialect) (chain : Chain) (head : Head) : Prop where
  calls : head.calls = d.headLength
  mode : head.mode = (d.modeArg? chain).map (·.text)
  mock : head.mock = if d.goesOn then (verifiedMock? chain).map (·.text) else none
  length : d.headLength ≤ chain.length

theorem text_verifiedMock? (call : Call) (calls : List Call) :
    (verifiedMock? ⟨call :: calls⟩).map (·.text) = call.argText? 0 := by
  simp [verifiedMock?, Chain.first?, Call.argText?, List.head?_eq_getElem?]

theorem heads_of_head? (h : d.head? chain = some head) : d.Heads chain head := by
  obtain ⟨calls⟩ := chain
  unfold head? at h
  split at h
  case isTrue => cases h
  case isFalse =>
    cases d with
    | thenShould =>
      rcases calls with _ | ⟨entry, _ | ⟨should, rest⟩⟩
      · cases h
      · cases h
      · have hmock := (text_verifiedMock? entry (should :: rest)).symm
        cases hordered : thenShould.isOrdered ⟨entry :: should :: rest⟩ <;> simp only [hordered] at h <;>
          obtain rfl := Option.some.inj h
        · exact ⟨rfl, by simp [modeArg?, hordered, Call.argText?], hmock, by simp [headLength, Chain.length]⟩
        · exact ⟨rfl, by simp [modeArg?, hordered, Call.argText?], hmock, by simp [headLength, Chain.length]⟩
    | mockitoVerify | inOrderVerify =>
      rcases calls with _ | ⟨verify, rest⟩
      · cases h
      · obtain rfl := Option.some.inj h
        exact ⟨rfl, rfl, (text_verifiedMock? verify rest).symm, by simp [headLength, Chain.length]⟩
    | inOrderVerifyStatic | staticVerify =>
      rcases calls with _ | ⟨verify, rest⟩
      · cases h
      · obtain rfl := Option.some.inj h
        exact ⟨rfl, rfl, rfl, by simp [headLength, Chain.length]⟩

theorem Heads.exists_mock (h : d.Heads chain head) {mock : String} (hmock : head.mock = some mock) :
    d.goesOn = true ∧ ∃ a, verifiedMock? chain = some a ∧ a.text = mock := by
  have hread := h.mock.symm.trans hmock
  split at hread
  case isTrue hon => exact ⟨hon, Option.map_eq_some_iff.mp hread⟩
  case isFalse => cases hread

theorem Heads.exists_last (h : d.Heads chain head) : ∃ last, chain.get? (head.calls - 1) = some last := by
  refine ⟨_, List.getElem?_eq_getElem ?_⟩
  have hlength : d.headLength ≤ chain.calls.length := h.length
  have hpos : 0 < d.headLength := by cases d <;> decide
  rw [h.calls]
  omega

theorem head_mockitoVerify (h : mockitoVerify.head? chain = some head) :
    head = ⟨mockitoVerify.headLength, head.mock, head.mode, none, none, none⟩ := by
  obtain ⟨calls⟩ := chain
  unfold head? at h
  split at h
  case isTrue => cases h
  case isFalse =>
    rcases calls with _ | ⟨verify, rest⟩
    · cases h
    · obtain rfl := Option.some.inj h
      rfl

theorem inOrder_of_head? (h : d.head? chain = some head) : head.inOrder =
    match d with
    | mockitoVerify | staticVerify => none
    | thenShould => if thenShould.isOrdered chain then (chain.get? 1).bind (·.argText? 0) else none
    | inOrderVerify | inOrderVerifyStatic => chain.first?.bind (·.qualifierText?) := by
  obtain ⟨calls⟩ := chain
  unfold head? at h
  split at h
  case isTrue => cases h
  case isFalse =>
    cases d with
    | thenShould =>
      rcases calls with _ | ⟨entry, _ | ⟨should, rest⟩⟩
      · cases h
      · cases h
      · cases hordered : thenShould.isOrdered ⟨entry :: should :: rest⟩ <;> simp only [hordered] at h <;>
          obtain rfl := Option.some.inj h <;> rfl
    | mockitoVerify | inOrderVerify | inOrderVerifyStatic | staticVerify =>
      rcases calls with _ | ⟨verify, rest⟩
      · cases h
      · obtain rfl := Option.some.inj h
        rfl

theorem begins_of_head? (h : d.head? chain = some head) : d.begins chain = true := by
  unfold head? at h
  split at h
  case isTrue => cases h
  case isFalse hbegins => simpa using hbegins

theorem exists_head?_of_begins (h : d.begins chain = true) : ∃ head, d.head? chain = some head := by
  obtain ⟨calls⟩ := chain
  unfold head?
  rw [h]
  cases d with
  | thenShould =>
    rcases calls with _ | ⟨entry, _ | ⟨should, rest⟩⟩
    · cases h
    · cases h
    · cases thenShould.isOrdered ⟨entry :: should :: rest⟩ <;> exact ⟨_, rfl⟩
  | mockitoVerify | inOrderVerify | inOrderVerifyStatic | staticVerify =>
    rcases calls with _ | ⟨verify, rest⟩
    · cases h
    · exact ⟨_, rfl⟩

theorem verifiedCall?_of_goesOn (h : d.goesOn = true) (chain : Chain) :
    d.verifiedCall? chain = chain.get? d.headLength := by
  cases d <;> first | rfl | cases h

theorem flaw?_eq_none_iff (h : d.goesOn = true) : d.flaw? chain = none ↔ (d.verifiedCall? chain).isSome = true := by
  rw [verifiedCall?_of_goesOn h, Chain.get?, isSome_getElem?]
  cases d <;> cases h <;> simp only [flaw?, headLength, ite_eq_right_iff, reduceCtorEq, imp_false, Nat.not_lt] <;>
    exact Iff.rfl

end Dialect

def callWord (name : String) (args : List Arg) : Word :=
  ⟨".", name, "(" ++ ", ".intercalate (args.map (·.text)) ++ ")", args⟩

namespace Target

/-- The class that the new head begins with, where it begins with one. -/
def entryClass? : Target → Option EntryClass
  | mockitoVerify => some .mockito
  | thenShould | thenShouldInOrder | addInOrder => some .bddMockito
  | inOrderVerify | inOrderVerifyStatic | staticVerify => none

/-- The calls of a head that begins with a class. -/
def words (t : Target) (mock : Arg) (order mode : Option Arg) : List Word :=
  match t.dialect with
  | .thenShould => [callWord "then" [mock], callWord "should" (order.toList ++ mode.toList)]
  | _ => [callWord "verify" (mock :: mode.toList)]

/-- The `InOrder` that the new head verifies against. -/
def inOrderFor (t : Target) (head : Head) (added : Option String) : Option String :=
  if t.usesInOrder then head.inOrder.or added else none

variable {t : Target} {cls : EntryClass} {mock : Arg} {order mode : Option Arg} {front : List Call}

theorem entryClass?_cases (h : t.entryClass? = some cls) :
    t = .mockitoVerify ∧ cls = .mockito ∨ t.dialect = .thenShould ∧ cls = .bddMockito := by
  cases t <;> simp_all [entryClass?, dialect]

theorem goesOn_of_entryClass? (h : t.entryClass? = some cls) : t.dialect.goesOn = true := by
  rcases entryClass?_cases h with ⟨rfl, -⟩ | ⟨hdialect, -⟩
  · rfl
  · rw [hdialect]
    rfl

theorem verify_of_spelled (h : Spelled .mockito [callWord "verify" (mock :: mode.toList)] ⟨front⟩) :
    ∃ verify, front = [verify] ∧ verify.args = mock :: mode.toList ∧
      Dialect.mockitoVerify.isEntry verify = true := by
  obtain ⟨verify, rest, rfl, hverify, hrest⟩ := List.map_eq_cons_iff.mp h.words
  obtain rfl := List.map_eq_nil_iff.mp hrest
  simp only [Call.word, callWord, Word.mk.injEq] at hverify
  obtain ⟨-, hname, -, hargs⟩ := hverify
  have hreceiver : verify.receiver = .entry .mockito := by
    rw [(h.opens verify rfl).receiver, hname]
    decide
  refine ⟨verify, rfl, hargs, ?_⟩
  cases mode <;> simp [Dialect.isEntry, hname, hreceiver, hargs]

theorem should_of_spelled {args : List Arg} (hargs : args.length ≤ 2)
    (h : Spelled .bddMockito [callWord "then" [mock], callWord "should" args] ⟨front⟩) :
    ∃ entry should, front = [entry, should] ∧ entry.args = [mock] ∧ should.args = args ∧
      Dialect.thenShould.isEntry entry = true ∧ isShould should = true := by
  obtain ⟨entry, rest, rfl, hentry, hrest⟩ := List.map_eq_cons_iff.mp h.words
  obtain ⟨should, rest, rfl, hshould, hnil⟩ := List.map_eq_cons_iff.mp hrest
  obtain rfl := List.map_eq_nil_iff.mp hnil
  simp only [Call.word, callWord, Word.mk.injEq] at hentry hshould
  obtain ⟨-, hname, -, hmock⟩ := hentry
  obtain ⟨-, hname', -, hargs'⟩ := hshould
  have hreceiver : entry.receiver = .entry .bddMockito := by
    rw [(h.opens entry rfl).receiver, hname]
    decide
  have hreceiver' : should.receiver = .object .bddThen := by
    rw [show should.receiver = entry.successor from (List.isChain_cons_cons.mp h.continues).1, Call.successor,
      hreceiver, hname]
    decide
  refine ⟨entry, should, rfl, hmock, hargs', ?_, ?_⟩
  · simp [Dialect.isEntry, hname, hreceiver, hmock]
  · simp [isShould, hname', hreceiver', hargs', hargs]

theorem isOrdered_should {entry should : Call} {rest : List Call}
    (hargs : should.args = order.toList ++ mode.toList) (horder : ∀ a ∈ order, a.apiType = some .inOrder)
    (hmode : ∀ a ∈ mode, a.apiType ≠ some .inOrder) :
    Dialect.thenShould.isOrdered ⟨entry :: should :: rest⟩ = order.isSome := by
  cases order with
  | none =>
    cases mode with
    | none => simp [Dialect.isOrdered, Chain.get?, hargs]
    | some mode => simpa [Dialect.isOrdered, Chain.get?, hargs] using hmode mode rfl
  | some order => simp [Dialect.isOrdered, Chain.get?, hargs, horder order rfl]

structure ReadsAs (d : Dialect) (chain : Chain) (mock : Arg) (order mode : Option Arg) : Prop where
  begins : d.begins chain = true
  head : d.head? chain = some ⟨d.headLength, some mock.text, mode.map (·.text), order.map (·.text), none, none⟩
  mock : Dialect.verifiedMock? chain = some mock
  mode : d.modeArg? chain = mode

theorem readsAs_of_spelled (hclass : t.entryClass? = some cls) (horder : order.isSome = t.usesInOrder)
    (htyped : ∀ a ∈ order, a.apiType = some .inOrder) (hmode : ∀ a ∈ mode, a.apiType ≠ some .inOrder)
    (h : Spelled cls (t.words mock order mode) ⟨front⟩) (rest : List Call) :
    front.length = t.dialect.headLength ∧ ReadsAs t.dialect ⟨front ++ rest⟩ mock order mode := by
  rcases entryClass?_cases hclass with ⟨rfl, rfl⟩ | ⟨hdialect, rfl⟩
  · obtain rfl : order = none := Option.isNone_iff_eq_none.mp (Option.isSome_eq_false_iff.mp horder)
    obtain ⟨verify, rfl, hargs, hentry⟩ := verify_of_spelled h
    have hbegins : Dialect.mockitoVerify.begins ⟨verify :: rest⟩ = true := by simp [Dialect.begins, hentry]
    refine ⟨rfl, hbegins, ?_, ?_, ?_⟩
    · cases mode <;> simp [dialect, Dialect.head?, hbegins, Call.argText?, hargs, Dialect.headLength]
    · simp [Dialect.verifiedMock?, Chain.first?, hargs]
    · cases mode <;> simp [dialect, Dialect.modeArg?, hargs]
  · rw [words, hdialect] at h
    obtain ⟨entry, should, rfl, hmock, hargs, hentry, hshould⟩ :=
      should_of_spelled (by cases order <;> cases mode <;> simp) h
    have hbegins : Dialect.thenShould.begins ⟨entry :: should :: rest⟩ = true :=
      Bool.and_eq_true_iff.mpr ⟨hentry, hshould⟩
    have hordered : Dialect.thenShould.isOrdered ⟨entry :: should :: rest⟩ = order.isSome :=
      isOrdered_should hargs htyped hmode
    rw [hdialect]
    refine ⟨rfl, hbegins, ?_, ?_, ?_⟩
    · cases order <;> cases mode <;>
        simp [Dialect.head?, hbegins, hordered, Call.argText?, hargs, hmock, Dialect.headLength]
    · simp [Dialect.verifiedMock?, Chain.first?, hmock]
    · cases order <;> cases mode <;> simp [Dialect.modeArg?, hordered, hargs]

theorem pieces_of_spell (hclass : t.entryClass? = some cls) {head : Head} {name : Option String} {text : String}
    (h : t.spell head name = some text) :
    (∃ mock, head.mock = some mock) ∧ (t.usesInOrder = true → name.isSome = true) := by
  cases t with
  | mockitoVerify | thenShould =>
    obtain ⟨mock, hmock, -⟩ := Option.map_eq_some_iff.mp h
    exact ⟨⟨mock, hmock⟩, nofun⟩
  | thenShouldInOrder | addInOrder =>
    simp only [spell] at h
    split at h
    case h_1 mock order hmock => exact ⟨⟨mock, hmock⟩, fun _ => rfl⟩
    case h_2 => cases h
  | inOrderVerify | inOrderVerifyStatic | staticVerify => cases hclass

theorem spell_eq_text (hclass : t.entryClass? = some cls) {head : Head} {added : Option String}
    (hmock : head.mock = some mock.text) (hmode : head.mode = mode.map (·.text))
    (horder : order.map (·.text) = t.inOrderFor head added) (hsome : order.isSome = t.usesInOrder)
    (h : Spelled cls (t.words mock order mode) ⟨front⟩) :
    t.spell head (head.inOrder.or added) = some (Chain.text ⟨front⟩) := by
  rw [h.text_eq (by unfold words; split <;> simp)]
  cases t with
  | mockitoVerify =>
    obtain rfl := Option.some.inj hclass
    cases mode <;>
      simp [spell, hmock, hmode, words, dialect, callWord, Word.text, EntryClass.simpleName,
        ← String.toList_inj]
  | thenShould =>
    obtain rfl := Option.some.inj hclass
    obtain rfl : order = none := Option.isNone_iff_eq_none.mp (Option.isSome_eq_false_iff.mp hsome)
    cases mode <;>
      simp [spell, hmock, hmode, words, dialect, callWord, Word.text, EntryClass.simpleName,
        ← String.toList_inj]
  | thenShouldInOrder | addInOrder =>
    obtain rfl := Option.some.inj hclass
    obtain ⟨a, rfl⟩ := Option.isSome_iff_exists.mp hsome
    have hname : head.inOrder.or added = some a.text := horder.symm
    cases mode <;>
      simp [spell, hmock, hmode, hname, words, dialect, callWord, Word.text, EntryClass.simpleName,
        ← String.toList_inj]
  | inOrderVerify | inOrderVerifyStatic | staticVerify => cases hclass

end Target

end MockDialect.Verification
