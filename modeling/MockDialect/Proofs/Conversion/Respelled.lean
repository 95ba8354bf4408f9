import MockDialect.Conversion.Stubbing
import MockDialect.Proofs.Conversion.Results
import MockDialect.Proofs.Recognition.Exclusive
import MockDialect.Proofs.Stubbing.Parts

namespace MockDialect.Conversion

open Api Chain Edit Recognition Source
open Stubbing (Parts Setter)

variable {source target : Stubbing.Dialect} {chain chain' : Chain} {edit : Edit}

def renamed (source target : Stubbing.Dialect) (call : Call) : String :=
  ((source.setterOf? call.name).bind target.setterName).getD ""

def setterWord (source target : Stubbing.Dialect) (call : Call) : Word :=
  ⟨linkOf call, renamed source target call, call.argsText, call.args⟩

/-- Words of which the first stands right behind a class. -/
def onClass : List Word → List Word
  | [] => []
  | w :: ws => { w with link := "." } :: ws

/-- The call that takes the mock. -/
def entryWord (d : Stubbing.Dialect) (arg : Arg) : Word := ⟨".", d.entryName, "(" ++ arg.text ++ ")", [arg]⟩

/-- What a mock is as a qualifier: what it was, or a name if it was an argument. -/
def mockKind (source : Stubbing.Dialect) (stubbed : Call) : QualifierKind :=
  match source.order with
  | .mockFirst => (stubbed.qualifier.map (·.kind)).getD .other
  | .actionFirst => .reference

/-- A chain that reads the words of another one in the target dialect. Arguments are taken over as they are;
the mock and the stubbed call are put together or taken apart. -/
inductive Restates (source target : Stubbing.Dialect) (chain chain' : Chain) : Prop where
  | mockFirst {stubbed call : Call} {mock : String} {arg : Arg} (order : target.order = .mockFirst)
      (found : source.stubbedCall? chain = some stubbed) (on : source.stubbedMock? chain = some mock)
      (text : arg.text = mock ++ stubbed.tail) (kind : arg.kind = .call call) (word : call.word = stubbed.word)
      (qualifier : ∃ span, call.qualifier = some ⟨mock, span, mockKind source stubbed⟩)
      (spelled : Spelled target.entryClass
        (entryWord target arg :: (source.setterCalls chain).map (setterWord source target)) chain')
  | actionFirst {stubbed : Call} {arg : Arg} (order : target.order = .actionFirst)
      (found : source.stubbedCall? chain = some stubbed) (on : source.stubbedMock? chain = some arg.text)
      (kind : arg.kind = .reference)
      (spelled : Spelled target.entryClass
        (onClass ((source.setterCalls chain).map (setterWord source target)) ++
          [entryWord target arg, stubbed.word]) chain')

theorem exists_restates {stubbed : Call} {mock : String} (hstubbed : source.stubbedCall? chain = some stubbed)
    (hmock : source.stubbedMock? chain = some mock) : ∃ chain', Restates source target chain chain' := by
  cases ho : target.order with
  | mockFirst =>
    let call : Call := { stubbed with qualifier := some ⟨mock, ⟨0, 0⟩, mockKind source stubbed⟩ }
    let arg : Arg := ⟨mock ++ stubbed.tail, ⟨0, 0⟩, .call call, none⟩
    obtain ⟨chain', hspelled⟩ := exists_spelled target.entryClass
      (entryWord target arg :: (source.setterCalls chain).map (setterWord source target))
    exact ⟨chain', .mockFirst ho hstubbed hmock rfl (show arg.kind = .call call from rfl) rfl ⟨⟨0, 0⟩, rfl⟩ hspelled⟩
  | actionFirst =>
    let arg : Arg := ⟨mock, ⟨0, 0⟩, .reference, none⟩
    obtain ⟨chain', hspelled⟩ := exists_spelled target.entryClass
      (onClass ((source.setterCalls chain).map (setterWord source target)) ++ [entryWord target arg, stubbed.word])
    exact ⟨chain', .actionFirst ho hstubbed hmock rfl hspelled⟩

def restated (source target : Stubbing.Dialect) (call : Call) : String × String :=
  (renamed source target call, call.argsText)

def Reworded (source target : Stubbing.Dialect) (setters setters' : List Call) : Prop :=
  setters'.map (fun c => (c.name, c.argsText)) = setters.map (restated source target)

theorem map_onClass (words : List Word) :
    (onClass words).map (fun w => (w.name, w.argsText)) = words.map fun w => (w.name, w.argsText) := by
  cases words <;> rfl

theorem convertSetter_eq_ok {call : Call} {action : Action} : convertSetter source target call = .ok action ↔
    source.isSetter call = true ∧ ∃ setter method, source.setterOf? call.name = some setter ∧
      target.setterName setter = some method ∧ action = ⟨linkOf call, method, call.argsText⟩ := by
  unfold convertSetter
  cases source.isSetter call with
  | false => simp
  | true =>
    cases source.setterOf? call.name with
    | none => simp
    | some setter => cases htarget : target.setterName setter <;> simp [htarget, eq_comm]

theorem convertStubbing_eq_ok : convertStubbing chain source target = .ok edit ↔
    source ≠ target ∧ source.flaw? chain = none ∧ ∃ actions stubbed mock,
      (source.setterCalls chain).mapM (convertSetter source target) = .ok actions ∧ actions ≠ [] ∧
      source.stubbedCall? chain = some stubbed ∧ source.stubbedMock? chain = some mock ∧
      (source.order = .mockFirst → target.order = .actionFirst → onReference stubbed = true) ∧
      edit = replace chain.span (spellStubbing target actions mock stubbed.tail) := by
  unfold convertStubbing
  by_cases hne : source = target
  · simp [hne, throw, throwThe, MonadExceptOf.throw, bind, Except.bind]
  cases source.flaw? chain with
  | some flaw => simp [hne, bind, Except.bind]
  | none =>
  cases hactions : (source.setterCalls chain).mapM (convertSetter source target) with
  | error rejection => simp [hne, bind, Except.bind]
  | ok actions =>
  cases actions with
  | nil => simp [hne, bind, Except.bind]
  | cons a actions =>
  cases source.stubbedCall? chain with
  | none => simp [hne, bind, Except.bind]
  | some stubbed =>
  cases source.stubbedMock? chain with
  | none => simp [hne, bind, Except.bind]
  | some mock =>
  cases hs : source.order <;> cases ht : target.order <;> cases hr : onReference stubbed <;>
    simp [hne, bind, Except.bind, pure, Except.pure, hr, @eq_comm _ edit]

structure Convertible (source target : Stubbing.Dialect) (chain : Chain) (p : Parts) : Prop where
  differ : source ≠ target
  made : source.MadeOf chain p
  words : ∀ c ∈ p.setters, ∃ setter method, source.setterOf? c.name = some setter ∧
    target.setterName setter = some method
  movable : source.order = .mockFirst → target.order = .actionFirst → onReference p.stubbed = true

theorem exists_convertible (hcontinues : chain.calls.IsChain Call.Continues) (hbegins : source.begins chain = true)
    (h : convertStubbing chain source target = .ok edit) : ∃ p, Convertible source target chain p := by
  obtain ⟨hne, hflaw, actions, stubbed, mock, hactions, hacts, hstubbed, hmock, hmovable, -⟩ :=
    convertStubbing_eq_ok.mp h
  have hsetters : ∀ c ∈ source.setterCalls chain, source.isSetter c = true ∧ ∃ setter method,
      source.setterOf? c.name = some setter ∧ target.setterName setter = some method := by
    intro c hc
    obtain ⟨action, -, haction⟩ := exists_of_mapM hactions c hc
    obtain ⟨hsetter, setter, method, hs, ht, -⟩ := convertSetter_eq_ok.mp haction
    exact ⟨hsetter, setter, method, hs, ht⟩
  have hsome : source.setterCalls chain ≠ [] := by
    intro hnil
    rw [hnil, List.mapM_nil] at hactions
    exact hacts (Except.ok.inj hactions).symm
  obtain ⟨entry, hmade⟩ := Stubbing.Dialect.exists_madeOf hcontinues hbegins hflaw hstubbed hmock
    (fun c hc => (hsetters c hc).1) hsome
  exact ⟨_, hne, hmade, fun c hc => (hsetters c hc).2, hmovable⟩

namespace Convertible

variable {p : Parts}

theorem convertStubbing_eq (h : Convertible source target chain p) :
    convertStubbing chain source target = .ok (replace chain.span (spellStubbing target
      (p.setters.map fun c => ⟨linkOf c, renamed source target c, c.argsText⟩) p.mock p.stubbed.tail)) := by
  refine convertStubbing_eq_ok.mpr ⟨h.differ, h.made.flaw?_eq_none, _, p.stubbed, p.mock, ?_, ?_,
    h.made.stubbedCall?_eq, h.made.stubbedMock?_eq, h.movable, rfl⟩
  · rw [h.made.setterCalls_eq]
    refine mapM_eq_ok_map fun c hc => convertSetter_eq_ok.mpr ⟨h.made.setters c hc, ?_⟩
    obtain ⟨setter, method, hs, ht⟩ := h.words c hc
    exact ⟨setter, method, hs, ht, by simp [renamed, hs, ht]⟩
  · simpa using h.made.acts

theorem restates_cases (h : Convertible source target chain p) (hr : Restates source target chain chain') :
    (target.order = .mockFirst ∧ ∃ arg call, arg.text = p.mock ++ p.stubbed.tail ∧ arg.kind = .call call ∧
      call.word = p.stubbed.word ∧ (∃ span, call.qualifier = some ⟨p.mock, span, mockKind source p.stubbed⟩) ∧
      Spelled target.entryClass (entryWord target arg :: p.setters.map (setterWord source target)) chain') ∨
    (target.order = .actionFirst ∧ ∃ arg, arg.text = p.mock ∧ arg.kind = .reference ∧
      Spelled target.entryClass (onClass (p.setters.map (setterWord source target)) ++
        [entryWord target arg, p.stubbed.word]) chain') := by
  cases hr with
  | mockFirst ho hfound hon htext hkind hword hqualifier hspelled =>
    rw [h.made.stubbedCall?_eq, Option.some.injEq] at hfound
    rw [h.made.stubbedMock?_eq, Option.some.injEq] at hon
    rw [h.made.setterCalls_eq] at hspelled
    subst hfound hon
    exact .inl ⟨ho, _, _, htext, hkind, hword, hqualifier, hspelled⟩
  | actionFirst ho hfound hon hkind hspelled =>
    rw [h.made.stubbedCall?_eq, Option.some.injEq] at hfound
    rw [h.made.stubbedMock?_eq, Option.some.injEq] at hon
    rw [h.made.setterCalls_eq] at hspelled
    subst hfound
    exact .inr ⟨ho, _, hon.symm, hkind, hspelled⟩

theorem text_eq (h : Convertible source target chain p) (hr : Restates source target chain chain') :
    chain'.text = spellStubbing target
      (p.setters.map fun c => ⟨linkOf c, renamed source target c, c.argsText⟩) p.mock p.stubbed.tail := by
  obtain ⟨ho, arg, call, htext, -, -, -, hspelled⟩ | ⟨ho, arg, htext, -, hspelled⟩ := h.restates_cases hr
  · rw [hspelled.text_eq (List.cons_ne_nil _ _)]
    simp [spellStubbing, ho, spellActions, setterWord, entryWord, Word.text, htext, String.append_assoc,
      Function.comp_def]
  · rw [hspelled.text_eq (by simp)]
    cases hsetters : p.setters with
    | nil => exact absurd hsetters h.made.acts
    | cons c cs =>
      simp [spellStubbing, ho, htext, onClass, spellActions, setterWord, entryWord, Word.text, Call.word,
        Call.tail, String.append_assoc, Function.comp_def]

theorem words_back (h : Convertible source target chain p) {setters : List Call}
    (hs : Reworded source target p.setters setters) : ∀ c ∈ setters, ∃ setter method,
      target.setterName setter = some c.name ∧ source.setterName setter = some method := by
  intro c hc
  have hmem : (c.name, c.argsText) ∈ p.setters.map (restated source target) := by
    rw [← hs]
    exact List.mem_map_of_mem hc
  obtain ⟨old, hold, he⟩ := List.mem_map.mp hmem
  obtain ⟨setter, method, hsource, htarget⟩ := h.words old hold
  simp only [restated, renamed, hsource, Option.bind_some, htarget, Option.getD_some, Prod.mk.injEq] at he
  exact ⟨setter, old.name, he.1 ▸ htarget, Stubbing.Dialect.setterName_of_setterOf? hsource⟩

theorem names_back (h : Convertible source target chain p) {setters : List Call}
    (hs : Reworded source target p.setters setters) :
    ∀ c ∈ setters, ∃ setter, target.setterName setter = some c.name := by
  intro c hc
  obtain ⟨setter, -, hname, -⟩ := h.words_back hs c hc
  exact ⟨setter, hname⟩

theorem actions_eq (h : Convertible source target chain p) {setters : List Call}
    (hs : Reworded source target p.setters setters) :
    setters.filterMap target.action? = p.setters.filterMap source.action? := by
  let act (s : String × String) := (target.setterOf? s.1).map fun setter => (setter, s.2)
  calc setters.filterMap target.action?
      = (setters.map fun c => (c.name, c.argsText)).filterMap act := by rw [List.filterMap_map]; rfl
    _ = (p.setters.map (restated source target)).filterMap act := by rw [hs]
    _ = p.setters.filterMap (act ∘ restated source target) := List.filterMap_map
    _ = p.setters.filterMap source.action? := by
      refine List.filterMap_congr fun c hc => ?_
      obtain ⟨setter, method, hsource, htarget⟩ := h.words c hc
      simp [act, restated, renamed, Stubbing.Dialect.action?, hsource, htarget,
        Stubbing.Dialect.setterOf?_setterName htarget]

theorem madeOf_mockFirst (h : Convertible source target chain p) (ho : target.order = .mockFirst)
    {arg : Arg} {call : Call} (hkind : arg.kind = .call call) (hmock : call.qualifierText? = some p.mock)
    (hspelled : Spelled target.entryClass
      (entryWord target arg :: p.setters.map (setterWord source target)) chain') :
    ∃ entry setters, target.MadeOf chain' ⟨setters, entry, p.mock, call⟩ ∧ target.begins chain' = true ∧
      Reworded source target p.setters setters := by
  obtain ⟨calls⟩ := chain'
  have hcontinues := hspelled.continues
  obtain ⟨entry, setters, rfl, hentry, hsetters⟩ := List.map_eq_cons_iff.mp hspelled.words
  simp only [Call.word, entryWord, Word.mk.injEq] at hentry
  obtain ⟨-, hname, -, hargs⟩ := hentry
  have hreworded : Reworded source target p.setters setters := by
    have hmap := congrArg (List.map fun w : Word => (w.name, w.argsText)) hsetters
    rwa [List.map_map, List.map_map] at hmap
  -- the entry class gives the type that carries the setters
  obtain ⟨hthrough, hresult⟩ := Stubbing.Dialect.opens_of_mockFirst ho
  have hreceiver : entry.receiver = .entry target.entryClass := by
    rw [(hspelled.opens entry rfl).receiver, hname, hthrough]
  have hsuccessor : entry.successor = .object target.carrier := by
    rw [Call.successor, hreceiver, hname]
    simp only [Receiver.result, hresult]
  have hisEntry : target.isEntry entry = true := by
    simp [Stubbing.Dialect.isEntry, ho, hname, hreceiver, hargs, Stubbing.isSingleCall, Arg.call?, hkind]
  refine ⟨entry, setters, ⟨hisEntry, fun c hc => ?_, ?_, ?_⟩,
    (Stubbing.Dialect.begins_mockFirst ho).mpr ⟨entry, rfl, hisEntry⟩, hreworded⟩
  · obtain ⟨setter, hs⟩ := h.names_back hreworded c hc
    have hcarried := Stubbing.Dialect.receiver_of_setters hcontinues hsuccessor (h.names_back hreworded) c hc
    exact Stubbing.Dialect.isSetter_of_carries hs (by simp [Stubbing.Dialect.carries, hcarried])
  · rintro rfl
    exact h.made.acts (List.map_eq_nil_iff.mp hsetters.symm)
  · simp only [ho, true_and]
    exact ⟨arg, hargs, hkind, hmock⟩

theorem madeOf_actionFirst (h : Convertible source target chain p) (ho : target.order = .actionFirst)
    {arg : Arg} (htext : arg.text = p.mock) (hkind : arg.kind = .reference)
    (hspelled : Spelled target.entryClass (onClass (p.setters.map (setterWord source target)) ++
      [entryWord target arg, p.stubbed.word]) chain') :
    ∃ entry setters stubbed, target.MadeOf chain' ⟨setters, entry, p.mock, stubbed⟩ ∧
      target.begins chain' = true ∧ Reworded source target p.setters setters ∧
      stubbed.word = p.stubbed.word := by
  obtain ⟨calls⟩ := chain'
  have hcontinues := hspelled.continues
  obtain ⟨setters, last, rfl, hsetters, hlast⟩ := List.map_eq_append_iff.mp hspelled.words
  obtain ⟨entry, rest, rfl, hentry, hrest⟩ := List.map_eq_cons_iff.mp hlast
  obtain ⟨stubbed, rest, rfl, hstubbed, hnil⟩ := List.map_eq_cons_iff.mp hrest
  obtain rfl := List.map_eq_nil_iff.mp hnil
  simp only [Call.word, entryWord, Word.mk.injEq] at hentry
  obtain ⟨-, hname, -, hargs⟩ := hentry
  have hreworded : Reworded source target p.setters setters := by
    have hmap := congrArg (List.map fun w : Word => (w.name, w.argsText)) hsetters
    rwa [map_onClass, List.map_map, List.map_map] at hmap
  cases setters with
  | nil => exact absurd (List.map_eq_nil_iff.mp hreworded.symm) h.made.acts
  | cons first setters =>
    obtain ⟨⟨setter, hs⟩, hnames⟩ := List.forall_mem_cons.mp (h.names_back hreworded)
    -- the first setter is called on the entry class, the others on the type that carries them
    obtain ⟨hthrough, hresult⟩ := Stubbing.Dialect.opens_of_setterName ho hs
    have hreceiver : first.receiver = .entry target.entryClass := by
      rw [(hspelled.opens first rfl).receiver, hthrough]
    have hsuccessor : first.successor = .object target.carrier := by
      rw [Call.successor, hreceiver]
      simp only [Receiver.result, hresult]
    obtain ⟨hfront, -, hjoin⟩ := List.isChain_append.mp hcontinues
    have hcarried := Stubbing.Dialect.receiver_of_setters hfront hsuccessor hnames
    have hentryReceiver : entry.receiver = .object target.carrier := by
      have hlast := List.getLast?_eq_some_getLast (List.cons_ne_nil first setters)
      rw [show entry.receiver = _ from hjoin _ hlast entry rfl]
      rcases List.mem_cons.mp (List.getLast_mem (List.cons_ne_nil first setters)) with heq | hmem
      · rw [heq, hsuccessor]
      · obtain ⟨setter, hs⟩ := hnames _ hmem
        exact Stubbing.Dialect.successor_of_setter hs (hcarried _ hmem)
    refine ⟨entry, first :: setters, stubbed, ⟨?_, fun c hc => ?_, List.cons_ne_nil first setters, ?_⟩,
      (Stubbing.Dialect.begins_actionFirst ho).mpr ⟨first, rfl, hreceiver, setter, hs⟩, hreworded, hstubbed⟩
    · simp [Stubbing.Dialect.isEntry, ho, hname, hentryReceiver, hargs]
    · obtain ⟨setter, hs⟩ := h.names_back hreworded c hc
      refine Stubbing.Dialect.isSetter_of_carries hs ?_
      rcases List.mem_cons.mp hc with rfl | hc
      · simp [Stubbing.Dialect.carries, ho, hreceiver]
      · simp [Stubbing.Dialect.carries, hcarried c hc]
    · simp only [ho, true_and]
      exact ⟨arg, hargs, hkind, htext⟩

theorem restated (h : Convertible source target chain p) (hr : Restates source target chain chain') :
    ∃ p', Convertible target source chain' p' ∧ target.begins chain' = true ∧
      target.meaning? chain' = source.meaning? chain := by
  obtain ⟨ho, arg, call, htext, hkind, hword, ⟨span, hq⟩, hspelled⟩ | ⟨ho, arg, htext, hkind, hspelled⟩ :=
    h.restates_cases hr
  · obtain ⟨entry, setters, hmade, hbegins, hreworded⟩ :=
      h.madeOf_mockFirst ho hkind (by simp [Call.qualifierText?, hq]) hspelled
    refine ⟨_, ⟨h.differ.symm, hmade, fun c hc => ?_, fun _ hs => ?_⟩, hbegins, ?_⟩
    · obtain ⟨setter, method, ht, hs⟩ := h.words_back hreworded c hc
      exact ⟨setter, method, Stubbing.Dialect.setterOf?_setterName ht, hs⟩
    · simp [onReference, hq, mockKind, hs]
    · rw [hmade.meaning?_eq, h.made.meaning?_eq, h.actions_eq hreworded, Call.tail_eq_of_word hword]
  · obtain ⟨entry, setters, stubbed, hmade, hbegins, hreworded, hword⟩ :=
      h.madeOf_actionFirst ho htext hkind hspelled
    refine ⟨_, ⟨h.differ.symm, hmade, fun c hc => ?_, fun ht => ?_⟩, hbegins, ?_⟩
    · obtain ⟨setter, method, ht, hs⟩ := h.words_back hreworded c hc
      exact ⟨setter, method, Stubbing.Dialect.setterOf?_setterName ht, hs⟩
    · rw [ho] at ht
      cases ht
    · rw [hmade.meaning?_eq, h.made.meaning?_eq, h.actions_eq hreworded, Call.tail_eq_of_word hword]

end Convertible

/-- A new chain that is spelled by an edit, is a complete sentence of the target dialect and says, with no
call to spare, what the old chain said. -/
structure Faithful (source target : Stubbing.Dialect) (chain : Chain) (edit : Edit) (chain' : Chain) : Prop where
  spells : chain'.text = edit.replacement
  classified : classify? chain' = some (.stubbing target)
  valid : target.flaw? chain' = none
  meaning : target.meaning? chain' = source.meaning? chain
  accounts : target.Accounts chain'

theorem Convertible.faithful {p : Parts} (h : Convertible source target chain p)
    (hr : Restates source target chain chain') (hedit : convertStubbing chain source target = .ok edit) :
    Faithful source target chain edit chain' := by
  obtain ⟨p', hback, hbegins, hmeaning⟩ := h.restated hr
  rw [h.convertStubbing_eq, Except.ok.injEq] at hedit
  exact ⟨by rw [h.text_eq hr, ← hedit]; rfl, classify?_eq_some_iff.mpr hbegins,
    hback.made.flaw?_eq_none, hmeaning, hback.made.accounts⟩

theorem stubbing_conversion_keeps_meaning (content : String) {place : Java.Cursor} {edit : Edit}
    (hplace : Java.Cursor.In (File.read content).tree place)
    (hclass : classify? (chainOf (File.read content) place) = some (.stubbing source))
    (hedit : convertStubbing (chainOf (File.read content) place) source target = .ok edit) :
    let chain := chainOf (File.read content) place
    edit.span = chain.span ∧ (source.meaning? chain).isSome ∧ source.Accounts chain ∧
      (∃ chain', Restates source target chain chain') ∧
      ∀ chain', Restates source target chain chain' → Faithful source target chain edit chain' ∧
        ∃ back, convertStubbing chain' target source = .ok back ∧ back.span = chain'.span ∧
          (∃ again, Restates target source chain' again) ∧
          ∀ again, Restates target source chain' again → Faithful target source chain' back again ∧
            source.meaning? again = source.meaning? chain := by
  intro chain
  have hcontinues := continues_of_follows (chainOf_follows (File.read_sound content) hplace)
  obtain ⟨p, hp⟩ := exists_convertible hcontinues (classify?_eq_some_iff.mp hclass) hedit
  have hspan : edit.span = chain.span := by
    rw [hp.convertStubbing_eq, Except.ok.injEq] at hedit
    rw [← hedit]
    rfl
  refine ⟨hspan, by rw [hp.made.meaning?_eq]; rfl, hp.made.accounts,
    exists_restates hp.made.stubbedCall?_eq hp.made.stubbedMock?_eq, fun chain' hr => ?_⟩
  obtain ⟨p', hback, -, hmeaning⟩ := hp.restated hr
  refine ⟨hp.faithful hr hedit, _, hback.convertStubbing_eq, rfl,
    exists_restates hback.made.stubbedCall?_eq hback.made.stubbedMock?_eq, fun again hagain => ?_⟩
  have hfaithful := hback.faithful hagain hback.convertStubbing_eq
  exact ⟨hfaithful, hfaithful.meaning.trans hmeaning⟩

theorem stubbing_conversion_keeps_meaning_moved_mock :
    let file := File.read
      "import org.mockito.*;class T\x7b\x7bMockito.when(a.b(1)).thenReturn(2).thenThrow(e);\x7d\x7d"
    ∃ place edit, Java.Cursor.In file.tree place ∧
      classify? (chainOf file place) = some (.stubbing .mockitoWhen) ∧
      convertStubbing (chainOf file place) .mockitoWhen .bddWill = .ok edit ∧
      edit.replacement = "BDDMockito.willReturn(2).willThrow(e).given(a).b(1)" ∧
      ∃ chain', Faithful .mockitoWhen .bddWill (chainOf file place) edit chain' := by
  intro file
  have hcomputed : (file.callAt? 40).any (fun place =>
      classify? (chainOf file place) == some (.stubbing .mockitoWhen) &&
        match convertStubbing (chainOf file place) .mockitoWhen .bddWill with
        | .ok edit => edit.replacement == "BDDMockito.willReturn(2).willThrow(e).given(a).b(1)"
        | .error _ => false) = true := by decide +kernel
  obtain ⟨place, hfound, hchecked⟩ := (Option.any_eq_true _ _).mp hcomputed
  obtain ⟨hplace, -⟩ := (Java.Cursor.In.innermost .root).nearest hfound
  rw [Bool.and_eq_true, beq_iff_eq] at hchecked
  obtain ⟨hclass, hedit⟩ := hchecked
  split at hedit
  case h_2 => cases hedit
  case h_1 edit hok =>
    obtain ⟨-, -, -, ⟨chain', hr⟩, hall⟩ := stubbing_conversion_keeps_meaning _ hplace hclass hok
    exact ⟨place, edit, hplace, hclass, hok, eq_of_beq hedit, chain', (hall chain' hr).1⟩

end MockDialect.Conversion
