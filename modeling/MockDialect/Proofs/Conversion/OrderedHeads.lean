import MockDialect.Proofs.Conversion.Reheaded
import MockDialect.Recognition.Convention

namespace MockDialect.Conversion

open Api Chain Edit Recognition Source
open Verification (Head callWord)
open Verification.Dialect (inOrderVerify inOrderVerifyStatic verifiedMock?)

/-- A `verify` on a variable of type `InOrder`. -/
structure OrderCall (name : String) (args : List Arg) (verify : Call) : Prop where
  word : verify.word = callWord "verify" args
  receiver : verify.receiver = .object .inOrder
  qualifier : ∃ span, verify.qualifier = some ⟨name, span, .reference⟩

/-- A chain that verifies in order what another verified without, in the dialect for it. -/
structure VerifiesInOrder (source : Verification.Dialect) (chain : Chain) (head : Head) (name : String)
    (ordered : Chain) : Prop where
  classified : classify? ordered = some (.verification .inOrderVerify)
  valid : inOrderVerify.flaw? ordered = none
  head : inOrderVerify.head? ordered = some ⟨1, head.mock, head.mode, some name, none, none⟩
  mock : verifiedMock? ordered = verifiedMock? chain
  mode : inOrderVerify.modeArg? ordered = source.modeArg? chain
  violates : Convention.bddMockito.isViolatedBy ordered = true

namespace OrderCall

variable {name : String} {mock : Arg} {mode : Option Arg} {verify : Call}

theorem exists_of_name (name : String) (args : List Arg) : ∃ verify, OrderCall name args verify :=
  ⟨⟨"verify", ⟨0, 0⟩, ⟨0, 0⟩, ⟨0, 0⟩, (callWord "verify" args).argsText, args, some ⟨name, ⟨0, 0⟩, .reference⟩, ".",
    .object .inOrder⟩, rfl, rfl, ⟨0, 0⟩, rfl⟩

theorem name_args {args : List Arg} (h : OrderCall name args verify) :
    verify.name = "verify" ∧ verify.args = args ∧ verify.qualifierText? = some name := by
  have hword := h.word
  simp only [Call.word, callWord, Word.mk.injEq] at hword
  obtain ⟨span, hqualifier⟩ := h.qualifier
  exact ⟨hword.2.1, hword.2.2.2, by rw [Call.qualifierText?, hqualifier]; rfl⟩

theorem spell_eq_text {head : Head} (h : OrderCall name (mock :: mode.toList) verify)
    (hmock : head.mock = some mock.text) (hmode : head.mode = mode.map (·.text)) :
    Verification.Target.inOrderVerify.spell head (some name) = some verify.text := by
  have hword := h.word
  simp only [Call.word, callWord, Word.mk.injEq] at hword
  obtain ⟨hlink, hname, hargs, -⟩ := hword
  rw [Call.text, h.name_args.2.2, Call.tail, hlink, hname, hargs]
  cases mode <;> simp [Verification.Target.spell, hmock, hmode, ← String.toList_inj]

theorem isEntry_iff (h : OrderCall name (mock :: mode.toList) verify) (hmock : mock.apiType ≠ some .mockedStatic) :
    inOrderVerify.isEntry verify = true ↔ ∀ a ∈ mode, a.isFunctional = false := by
  obtain ⟨hname, hargs, -⟩ := h.name_args
  cases mode <;> simp [Verification.Dialect.isEntry, hname, h.receiver, hargs, hmock]

theorem isEntry_static (h : OrderCall name (mock :: mode.toList) verify)
    (hfunctional : ∃ a ∈ mode, a.isFunctional = true) :
    inOrderVerifyStatic.isEntry verify = true ∧ Convention.bddMockito.forbids verify = false := by
  obtain ⟨hname, hargs, -⟩ := h.name_args
  obtain ⟨a, rfl, ha⟩ := hfunctional
  simp [Convention.forbids, Verification.Dialect.isEntry, hname, h.receiver, hargs, ha]

end OrderCall

theorem begins_verify (verify : Call) (rest : List Call) :
    inOrderVerify.begins ⟨verify :: rest⟩ = inOrderVerify.isEntry verify ∧
      inOrderVerifyStatic.begins ⟨verify :: rest⟩ = inOrderVerifyStatic.isEntry verify := by
  cases rest <;> exact ⟨rfl, rfl⟩

section

variable {source : Verification.Dialect} {chain : Chain} {head : Head}
  (hsource : source = .mockitoVerify ∨ source = .thenShould)

include hsource

theorem goesOn_of_source : source.goesOn = true := by
  rcases hsource with rfl | rfl <;> rfl

theorem inOrder_eq_none (hhead : source.head? chain = some head) (hunordered : source.isOrdered chain = false) :
    head.inOrder = none := by
  rw [Verification.Dialect.inOrder_of_head? hhead]
  rcases hsource with rfl | rfl
  · rfl
  · simp [hunordered]

theorem exists_verifiedMock? (hbegins : source.begins chain = true) : ∃ mock, verifiedMock? chain = some mock := by
  obtain ⟨first, hfirst, hentry⟩ := Verification.Dialect.isEntry_of_begins hbegins
  have hargs : first.args ≠ [] := by
    intro hnil
    rcases hsource with rfl | rfl <;> simp [Verification.Dialect.isEntry, hnil] at hentry
  obtain ⟨mock, rest, hmock⟩ := List.exists_cons_of_ne_nil hargs
  exact ⟨mock, by simp [verifiedMock?, hfirst, hmock]⟩

theorem mock_of_head? {mock : Arg} (hhead : source.head? chain = some head) (hfound : verifiedMock? chain = some mock) :
    head.mock = some mock.text := by
  rw [(Verification.Dialect.heads_of_head? hhead).mock, if_pos (goesOn_of_source hsource), hfound]
  rfl

theorem verifiesInOrder_iff {name : String} {mock : Arg} {verify : Call} (hflaw : source.flaw? chain = none)
    (hhead : source.head? chain = some head) (hfound : verifiedMock? chain = some mock)
    (hmock : mock.apiType ≠ some .mockedStatic)
    (h : OrderCall name (mock :: (source.modeArg? chain).toList) verify) :
    VerifiesInOrder source chain head name (withHead [verify] head chain) ↔
      ∀ a ∈ source.modeArg? chain, a.isFunctional = false := by
  have hheads := Verification.Dialect.heads_of_head? hhead
  have hbegins : inOrderVerify.begins (withHead [verify] head chain) = true ↔
      ∀ a ∈ source.modeArg? chain, a.isFunctional = false := by
    rw [← h.isEntry_iff hmock]
    exact iff_of_eq (congrArg (· = true) (begins_verify verify _).1)
  refine ⟨fun hverifies => hbegins.mp (classify?_eq_some_iff.mp hverifies.classified), fun hmode => ?_⟩
  have hentry := (h.isEntry_iff hmock).mpr hmode
  obtain ⟨hname, hargs, hqualifier⟩ := h.name_args
  have hmocked := mock_of_head? hsource hhead hfound
  have hmodeArg : verify.args[1]? = source.modeArg? chain := by
    rw [hargs]
    cases source.modeArg? chain <;> rfl
  refine ⟨classify?_eq_some_iff.mpr (hbegins.mpr hmode), ?_, ?_, ?_, hmodeArg, ?_⟩
  · rw [Verification.Dialect.flaw?_eq_none_iff (goesOn_of_source hsource)] at hflaw
    have hverified := verifiedCall?_withHead (rfl : Verification.Target.inOrderVerify.dialect.goesOn = true)
      (goesOn_of_source hsource) hheads.calls (rfl : [verify].length = _) chain
    rw [Verification.Dialect.flaw?_eq_none_iff rfl]
    exact hverified ▸ hflaw
  · have htext : verify.argText? 0 = some mock.text := by
      rw [Call.argText?, hargs]
      rfl
    rw [hmocked, hheads.mode, ← hmodeArg, ← hqualifier, ← htext]
    unfold Verification.Dialect.head?
    rw [hbegins.mpr hmode]
    rfl
  · rw [hfound]
    simp [withHead, verifiedMock?, Chain.first?, hargs]
  · simp [withHead, Convention.isViolatedBy, Convention.forbids, hentry]

end

theorem convertVerification_inOrderVerify (f : File) (base : String) {source : Verification.Dialect} {site : Site}
    {head : Head} {mock : String} (hsource : source = .mockitoVerify ∨ source = .thenShould)
    (hhead : source.head? site.chain = some head) (hmock : head.mock = some mock) :
    ∃ planned, convertVerification f [site] source .inOrderVerify base = .ok planned := by
  obtain ⟨last, hlast⟩ := (Verification.Dialect.heads_of_head? hhead).exists_last
  obtain ⟨text, htext⟩ : ∃ text, Verification.Target.inOrderVerify.spell head
      (head.inOrder.or (addedInOrder f .inOrderVerify base [head])) = some text := by
    cases horder : head.inOrder <;>
      simp [Verification.Target.spell, hmock, addedInOrder, Verification.Target.usesInOrder, horder]
  have hoffered : Verification.Target.inOrderVerify ∈ source.targets := by
    rcases hsource with rfl | rfl <;> decide
  have hordered : checkOrder source .inOrderVerify [head] = .ok () := by
    rcases hsource with rfl | rfl <;> simp [checkOrder]
  exact convertVerification_of_replaced (replaced_single hoffered hhead hordered ⟨[], rfl⟩
    (replaceHead_eq_ok.mpr ⟨text, last, htext, hlast, rfl⟩))

/-- What a conversion makes of a chain that has no `InOrder` yet: the variable `name` is declared, and a `verify` on it
takes the place of the head. -/
structure PutInOrder (f : File) (source : Verification.Dialect) (planned : Planned) (chain : Chain) (head : Head)
    (name : String) (edit : Edit) : Prop where
  declared : ∃ start args, declareInOrder f start name args ∈ planned.edits
  planned : edit ∈ planned.edits
  span : ∃ last, chain.get? (head.calls - 1) = some last ∧ edit.span = ⟨chain.span.start, last.span.stop⟩
  exists_verify : ∃ verify, OrderCall name ((verifiedMock? chain).toList ++ (source.modeArg? chain).toList) verify
  verify : ∀ verify, OrderCall name ((verifiedMock? chain).toList ++ (source.modeArg? chain).toList) verify →
    verify.text = edit.replacement ∧
    (VerifiesInOrder source chain head name (withHead [verify] head chain) ↔
      ∀ a ∈ source.modeArg? chain, a.isFunctional = false) ∧
    ((∃ a ∈ source.modeArg? chain, a.isFunctional = true) →
      classify? (withHead [verify] head chain) = some (.verification .inOrderVerifyStatic) ∧
        Convention.bddMockito.forbids verify = false)

theorem put_in_order_unless_functional (f : File) (base : String) {source : Verification.Dialect} {site : Site}
    (hsource : source = .mockitoVerify ∨ source = .thenShould) (hvalid : source.isValid site.chain = true)
    (hunordered : source.isOrdered site.chain = false)
    (hmock : ∀ mock ∈ verifiedMock? site.chain, mock.apiType ≠ some .mockedStatic) :
    (∃ planned, convertVerification f [site] source .inOrderVerify base = .ok planned) ∧
    ∀ sites planned, site ∈ sites → convertVerification f sites source .inOrderVerify base = .ok planned →
      ∃ head edit, source.head? site.chain = some head ∧
        PutInOrder f source planned site.chain head (freshName f.identifiers base) edit := by
  obtain ⟨hbegins, hflaw⟩ := Bool.and_eq_true_iff.mp hvalid
  obtain ⟨head, hhead⟩ := Verification.Dialect.exists_head?_of_begins hbegins
  obtain ⟨mock, hfound⟩ := exists_verifiedMock? hsource hbegins
  have hheads := Verification.Dialect.heads_of_head? hhead
  have hmocked := mock_of_head? hsource hhead hfound
  refine ⟨convertVerification_inOrderVerify f base hsource hhead hmocked, fun sites planned hsite h => ?_⟩
  obtain ⟨heads, edits, args, hreplaced, hedits⟩ := replaced_of_convertVerification h
  obtain ⟨head', hzip, hhead', e, he, hreplace⟩ := hreplaced.site hsite
  obtain rfl := Option.some.inj (hhead.symm.trans hhead')
  obtain ⟨text, last, htext, hlast, rfl⟩ := replaceHead_eq_ok.mp hreplace
  have hnone := inOrder_eq_none hsource hhead hunordered
  have hadded : addedInOrder f .inOrderVerify base heads = some (freshName f.identifiers base) := by
    have hany : heads.any (·.inOrder.isNone) = true :=
      List.any_eq_true.mpr ⟨head, (List.of_mem_zip hzip).2, by rw [hnone]; rfl⟩
    simp [addedInOrder, Verification.Target.usesInOrder, hany]
  rw [hadded] at hedits htext
  rw [hnone] at htext
  refine ⟨head, replace ⟨site.chain.span.start, last.span.stop⟩ text, hhead, ?_, ?_, ⟨last, hlast, rfl⟩,
    OrderCall.exists_of_name _ _, fun verify hverify => ?_⟩
  · rw [hedits]
    exact (declared_of_added hadded hsite _ _).2
  · rw [hedits]
    exact List.mem_append_right _ he
  · rw [hfound] at hverify
    have hiff := verifiesInOrder_iff hsource (Option.isNone_iff_eq_none.mp hflaw) hhead hfound (hmock mock hfound)
      hverify
    refine ⟨?_, hiff, fun hfunctional => ?_⟩
    · exact Option.some.inj ((hverify.spell_eq_text hmocked hheads.mode).symm.trans htext)
    · obtain ⟨hentry, hallowed⟩ := hverify.isEntry_static hfunctional
      exact ⟨classify?_eq_some_iff.mpr ((begins_verify verify _).2.trans hentry), hallowed⟩

theorem put_in_order_unless_functional_times :
    let file := File.read "import org.mockito.*;class T\x7b\x7bMockito.verify(a,times(2)).b(1);\x7d\x7d"
    let head : Head := ⟨1, some "a", some "times(2)", none, none, none⟩
    ∃ site planned edit verify,
      convertVerification file [site] .mockitoVerify .inOrderVerify "order" = .ok planned ∧
      PutInOrder file .mockitoVerify planned site.chain head "order" edit ∧
      verify.text = edit.replacement ∧
      VerifiesInOrder .mockitoVerify site.chain head "order" (withHead [verify] head site.chain) := by
  intro file head
  have hcomputed : (file.callAt? 40).any (fun place =>
      let chain := (siteOf file place).chain
      Verification.Dialect.mockitoVerify.isValid chain &&
        Verification.Dialect.mockitoVerify.head? chain == some head &&
        (verifiedMock? chain).all (·.apiType != some .mockedStatic) &&
        (Verification.Dialect.mockitoVerify.modeArg? chain).all (!·.isFunctional) &&
        freshName file.identifiers "order" == "order") = true := by
    decide +kernel
  obtain ⟨place, -, hchecked⟩ := (Option.any_eq_true _ _).mp hcomputed
  simp only [Bool.and_eq_true, beq_iff_eq] at hchecked
  obtain ⟨⟨⟨⟨hvalid, hread⟩, hmock⟩, hmode⟩, hname⟩ := hchecked
  obtain ⟨⟨planned, hplanned⟩, hput⟩ := put_in_order_unless_functional file "order" (.inl rfl) hvalid rfl
    fun mock hfound => by simpa [Option.mem_def.mp hfound] using hmock
  obtain ⟨head', edit, hhead, hconverted⟩ := hput _ planned (.head []) hplanned
  obtain rfl := Option.some.inj (hread.symm.trans hhead)
  rw [hname] at hconverted
  obtain ⟨verify, hverify⟩ := hconverted.exists_verify
  obtain ⟨htext, hverifies, -⟩ := hconverted.verify verify hverify
  exact ⟨_, planned, edit, verify, hplanned, hconverted, htext, hverifies.mpr fun a ha => by
    simpa [Option.mem_def.mp ha] using hmode⟩

/-- A mode that is a function is taken for what a `MockedStatic` verifies. -/
theorem put_in_order_functional_mode :
    let file := File.read "import org.mockito.*;class T\x7b\x7bMockito.verify(a,d->\x7b\x7d).b();\x7d\x7d"
    ∃ site planned text call,
      Verification.Dialect.mockitoVerify.isValid site.chain = true ∧
      (∀ mock ∈ verifiedMock? site.chain, mock.apiType ≠ some .mockedStatic) ∧
      convertVerification file [site] .mockitoVerify .inOrderVerify "order" = .ok planned ∧
      applyEdits file.text planned.edits = .ok text ∧
      let file' := File.read (String.ofList text)
      file'.callAt? 76 = some call ∧
        classify? (chainOf file' call) = some (.verification .inOrderVerifyStatic) ∧
        (check file' .bddMockito).length = 0 := by
  intro file
  have hcomputed : (file.callAt? 40).any (fun place =>
      let site := siteOf file place
      Verification.Dialect.mockitoVerify.isValid site.chain &&
        (verifiedMock? site.chain).all (·.apiType != some .mockedStatic) &&
        (convertVerification file [site] .mockitoVerify .inOrderVerify "order").toOption.any fun planned =>
          (applyEdits file.text planned.edits).toOption.any fun text =>
            let file' := File.read (String.ofList text)
            (file'.callAt? 76).any fun call =>
              decide (classify? (chainOf file' call) = some (.verification .inOrderVerifyStatic)) &&
                (check file' .bddMockito).length == 0) = true := by
    decide +kernel
  obtain ⟨place, -, hchecked⟩ := (Option.any_eq_true _ _).mp hcomputed
  simp only [Bool.and_eq_true] at hchecked
  obtain ⟨⟨hvalid, hmock⟩, hchecked⟩ := hchecked
  obtain ⟨planned, hplanned, hchecked⟩ := (Option.any_eq_true _ _).mp hchecked
  obtain ⟨text, htext, hchecked⟩ := (Option.any_eq_true _ _).mp hchecked
  obtain ⟨call, hcall, hchecked⟩ := (Option.any_eq_true _ _).mp hchecked
  simp only [Bool.and_eq_true, decide_eq_true_eq, beq_iff_eq] at hchecked
  refine ⟨siteOf file place, planned, text, call, hvalid, fun mock hfound => ?_, eq_ok_of_toOption hplanned,
    eq_ok_of_toOption htext, hcall, hchecked⟩
  simpa [Option.mem_def.mp hfound] using hmock

end MockDialect.Conversion
