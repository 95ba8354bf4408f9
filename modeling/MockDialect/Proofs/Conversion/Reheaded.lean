import MockDialect.Conversion.Planner
import MockDialect.Proofs.Conversion.Results
import MockDialect.Proofs.Verification.Heads

namespace MockDialect.Conversion

open Api Chain Edit Recognition Source
open Verification (Head)

variable {f : File} {sites : List Site} {source : Verification.Dialect} {target : Verification.Target}
  {base : String} {planned : Planned}

def declarationFor (f : File) (args : List String) : Option String → List Site → List Edit
  | some name, first :: _ => [declareInOrder f first.statementStart name args]
  | _, _ => []

/-- The heads of sites, and the edits that replace them. -/
structure Replaced (f : File) (sites : List Site) (source : Verification.Dialect) (target : Verification.Target)
    (base : String) (heads : List Head) (edits : List Edit) : Prop where
  offered : target ∈ source.targets
  read : sites.mapM (headOf source) = .ok heads
  ordered : checkOrder source target heads = .ok ()
  resolved : ∃ classes, mockedClasses f target (sites.zip heads) = .ok classes
  replaced : (sites.zip heads).mapM
    (fun x => replaceHead source target (addedInOrder f target base heads) x.1 x.2) = .ok edits

def orderArgs (classes : List String) (heads : List Head) : List String :=
  if classes.isEmpty then heads.filterMap (·.mock) else classes

theorem convertVerification_eq_ok (h : convertVerification f sites source target base = .ok planned) :
    ∃ heads edits classes, Replaced f sites source target base heads edits ∧
      mockedClasses f target (sites.zip heads) = .ok classes ∧ planned.edits =
        declarationFor f (unique (orderArgs classes heads)) (addedInOrder f target base heads) sites ++ edits := by
  unfold convertVerification at h
  dsimp only at h
  split at h
  case isTrue => cases h
  case isFalse htarget =>
    obtain ⟨heads, hheads, h⟩ := bind_eq_ok.mp h
    obtain ⟨⟨⟩, horder, h⟩ := bind_eq_ok.mp h
    obtain ⟨classes, hclasses, h⟩ := bind_eq_ok.mp h
    obtain ⟨edits, hedits, h⟩ := bind_eq_ok.mp h
    obtain rfl := Except.ok.inj h
    exact ⟨heads, edits, classes, ⟨by simpa using htarget, hheads, horder, ⟨classes, hclasses⟩, hedits⟩, hclasses, rfl⟩

theorem replaced_of_convertVerification (h : convertVerification f sites source target base = .ok planned) :
    ∃ heads edits args, Replaced f sites source target base heads edits ∧
      planned.edits = declarationFor f args (addedInOrder f target base heads) sites ++ edits := by
  obtain ⟨heads, edits, classes, hreplaced, -, he⟩ := convertVerification_eq_ok h
  exact ⟨heads, edits, _, hreplaced, he⟩

theorem convertVerification_of_replaced {heads : List Head} {edits : List Edit}
    (h : Replaced f sites source target base heads edits) :
    ∃ planned, convertVerification f sites source target base = .ok planned := by
  obtain ⟨classes, hclasses⟩ := h.resolved
  unfold convertVerification
  dsimp only
  rw [if_neg (by simpa using h.offered)]
  exact ⟨_, bind_eq_ok.mpr ⟨heads, h.read, bind_eq_ok.mpr ⟨(), h.ordered, bind_eq_ok.mpr ⟨classes, hclasses,
    bind_eq_ok.mpr ⟨edits, h.replaced, rfl⟩⟩⟩⟩⟩

theorem headOf_eq_ok {site : Site} {head : Head} :
    headOf source site = .ok head ↔ source.head? site.chain = some head := by
  unfold headOf
  split
  case h_1 found hfound => simp [hfound]
  case h_2 hfound => simp [hfound]

section

variable {heads : List Head} {edits : List Edit}

theorem Replaced.head_of_zip (h : Replaced f sites source target base heads edits) :
    ∀ x ∈ sites.zip heads, source.head? x.1.chain = some x.2 := by
  have hrow : List.Forall₂ (fun site head => source.head? site.chain = some head) sites heads :=
    forall₂_of_map_eq (mapM_eq_ok.mp h.read) fun site _ head => headOf_eq_ok.mp
  intro x hx
  exact List.forall₂_zip hrow hx

theorem Replaced.length_eq (h : Replaced f sites source target base heads edits) :
    sites.length = heads.length := by
  have hlength := congrArg List.length (mapM_eq_ok.mp h.read)
  rwa [List.length_map, List.length_map] at hlength

theorem Replaced.map_fst (h : Replaced f sites source target base heads edits) :
    (sites.zip heads).map Prod.fst = sites :=
  List.map_fst_zip (Nat.le_of_eq h.length_eq)

theorem Replaced.map_snd (h : Replaced f sites source target base heads edits) :
    (sites.zip heads).map Prod.snd = heads :=
  List.map_snd_zip (Nat.le_of_eq h.length_eq.symm)

end

theorem Replaced.site {heads : List Head} {edits : List Edit} (h : Replaced f sites source target base heads edits)
    {site : Site} (hsite : site ∈ sites) : ∃ head, (site, head) ∈ sites.zip heads ∧
      source.head? site.chain = some head ∧
      ∃ e ∈ edits, replaceHead source target (addedInOrder f target base heads) site head = .ok e := by
  obtain ⟨head, hzip, hhead⟩ := exists_zip_of_map_eq (mapM_eq_ok.mp h.read) site hsite
  exact ⟨head, hzip, headOf_eq_ok.mp hhead, exists_of_mapM h.replaced (site, head) hzip⟩

theorem replaced_single {site : Site} {head : Head} {e : Edit} (hoffered : target ∈ source.targets)
    (hhead : source.head? site.chain = some head) (hordered : checkOrder source target [head] = .ok ())
    (hresolved : ∃ classes, mockedClasses f target [(site, head)] = .ok classes)
    (hreplaced : replaceHead source target (addedInOrder f target base [head]) site head = .ok e) :
    Replaced f [site] source target base [head] [e] where
  offered := hoffered
  read := mapM_singleton (headOf_eq_ok.mpr hhead)
  ordered := hordered
  resolved := hresolved
  replaced := mapM_singleton hreplaced

theorem replaceHead_eq_ok {added : Option String} {site : Site} {head : Head} {e : Edit} :
    replaceHead source target added site head = .ok e ↔ ∃ text last,
      target.spell head (head.inOrder.or added) = some text ∧ site.chain.get? (head.calls - 1) = some last ∧
        e = replace ⟨site.chain.span.start, last.span.stop⟩ text := by
  unfold replaceHead
  split
  case h_1 text last htext hlast => simp [htext, hlast, eq_comm]
  case h_2 hnone =>
    refine ⟨fun h => (nomatch h), ?_⟩
    rintro ⟨text, last, htext, hlast, -⟩
    exact absurd hlast (hnone text last htext)

/-- Calls that read the words put in place of a head: the mock and the mode are the arguments that they were,
the `InOrder` is a new argument of that type. -/
inductive Reheads (source : Verification.Dialect) (target : Verification.Target) (added : Option String)
    (chain : Chain) (head : Head) (front : List Call) : Prop where
  | intro {cls : EntryClass} {mock : Arg} {order : Option Arg} (onClass : target.entryClass? = some cls)
      (found : Verification.Dialect.verifiedMock? chain = some mock)
      (name : order.map (·.text) = target.inOrderFor head added) (typed : ∀ a ∈ order, a.apiType = some .inOrder)
      (spelled : Spelled cls (target.words mock order (source.modeArg? chain)) ⟨front⟩)

/-- A chain with other calls in place of its head. -/
def withHead (front : List Call) (head : Head) (chain : Chain) : Chain := ⟨front ++ chain.calls.drop head.calls⟩

/-- A chain under a new head, which says what the old one said. -/
structure Survives (source : Verification.Dialect) (target : Verification.Target) (added : Option String)
    (chain : Chain) (head : Head) (chain' : Chain) : Prop where
  classified : classify? chain' = some (.verification target.dialect)
  valid : source.flaw? chain = none → target.dialect.flaw? chain' = none
  head : target.dialect.head? chain' =
    some ⟨target.dialect.headLength, head.mock, head.mode, target.inOrderFor head added, none, none⟩
  mode : target.dialect.modeArg? chain' = source.modeArg? chain
  verified : target.dialect.verifiedCall? chain' = source.verifiedCall? chain

section

variable {cls : EntryClass} {added : Option String} {chain : Chain} {head : Head} {front : List Call}
  {text : String}

theorem exists_reheads (hclass : target.entryClass? = some cls) (hhead : source.head? chain = some head)
    (hspell : target.spell head (head.inOrder.or added) = some text) :
    ∃ front, Reheads source target added chain head front := by
  obtain ⟨⟨mock, hmock⟩, -⟩ := Verification.Target.pieces_of_spell hclass hspell
  obtain ⟨-, a, ha, -⟩ := (Verification.Dialect.heads_of_head? hhead).exists_mock hmock
  let order := (target.inOrderFor head added).map fun name => (⟨name, ⟨0, 0⟩, .reference, some .inOrder⟩ : Arg)
  obtain ⟨⟨front⟩, hspelled⟩ := exists_spelled cls (target.words a order (source.modeArg? chain))
  refine ⟨front, .intro hclass ha ?_ (fun o ho => ?_) hspelled⟩
  · simp [order, Function.comp_def]
  · obtain ⟨name, -, rfl⟩ := Option.map_eq_some_iff.mp ho
    rfl

theorem verifiedCall?_withHead (htarget : target.dialect.goesOn = true) (hon : source.goesOn = true)
    (hcalls : head.calls = source.headLength) (hlength : front.length = target.dialect.headLength) (chain : Chain) :
    target.dialect.verifiedCall? (withHead front head chain) = source.verifiedCall? chain := by
  rw [Verification.Dialect.verifiedCall?_of_goesOn htarget, Verification.Dialect.verifiedCall?_of_goesOn hon, withHead,
    Chain.get?, Chain.get?, ← hlength, List.getElem?_append_right (Nat.le_refl _), Nat.sub_self, List.getElem?_drop,
    hcalls, Nat.add_zero]

theorem Reheads.survives (h : Reheads source target added chain head front) (hhead : source.head? chain = some head)
    (hspell : target.spell head (head.inOrder.or added) = some text)
    (hmode : ∀ a ∈ source.modeArg? chain, a.apiType ≠ some .inOrder) :
    Chain.text ⟨front⟩ = text ∧ Survives source target added chain head (withHead front head chain) := by
  obtain @⟨cls, mock, order, hclass, hfound, hname, htyped, hspelled⟩ := h
  have hheads := Verification.Dialect.heads_of_head? hhead
  obtain ⟨⟨name, hnamed⟩, hpieces⟩ := Verification.Target.pieces_of_spell hclass hspell
  obtain ⟨hon, a, ha, rfl⟩ := hheads.exists_mock hnamed
  obtain rfl := Option.some.inj (hfound.symm.trans ha)
  -- a head that uses an `InOrder` could not be spelled without one
  have horder : order.isSome = target.usesInOrder := by
    rw [← Option.isSome_map (f := fun a : Arg => a.text), hname, Verification.Target.inOrderFor]
    cases huses : target.usesInOrder with
    | false => rfl
    | true => exact hpieces huses
  obtain ⟨hlength, hreads⟩ := Verification.Target.readsAs_of_spelled hclass horder htyped hmode hspelled
    (chain.calls.drop head.calls)
  have htext := Verification.Target.spell_eq_text hclass hnamed hheads.mode hname horder hspelled
  have htarget := Verification.Target.goesOn_of_entryClass? hclass
  have hverified := verifiedCall?_withHead htarget hon hheads.calls hlength chain
  refine ⟨Option.some.inj (htext.symm.trans hspell), classify?_eq_some_iff.mpr hreads.begins, ?_, ?_, hreads.mode,
    hverified⟩
  · rw [Verification.Dialect.flaw?_eq_none_iff hon, Verification.Dialect.flaw?_eq_none_iff htarget, hverified]
    exact id
  · rw [hnamed, hheads.mode, ← hname]
    exact hreads.head

end

theorem convertVerification_mockitoVerify (f : File) (base : String) {site : Site} {head : Head} {mock : String}
    (hhead : Verification.Dialect.thenShould.head? site.chain = some head) (hmock : head.mock = some mock) :
    ∃ planned, convertVerification f [site] .thenShould .mockitoVerify base = .ok planned := by
  obtain ⟨last, hlast⟩ := (Verification.Dialect.heads_of_head? hhead).exists_last
  obtain ⟨text, htext⟩ : ∃ text, Verification.Target.mockitoVerify.spell head
      (head.inOrder.or (addedInOrder f .mockitoVerify base [head])) = some text := by
    simp [Verification.Target.spell, hmock]
  exact convertVerification_of_replaced (replaced_single (by decide) hhead rfl ⟨[], rfl⟩
    (replaceHead_eq_ok.mpr ⟨text, last, htext, hlast, rfl⟩))

theorem head_restored {chain there : Chain} {head head' : Head} {mock : String} {added : Option String}
    {front : List Call} (hhead : Verification.Dialect.mockitoVerify.head? chain = some head)
    (hmock : head.mock = some mock)
    (hmode : ∀ a ∈ Verification.Dialect.mockitoVerify.modeArg? chain, a.apiType ≠ some .inOrder)
    (hthere : Survives .mockitoVerify .thenShould added chain head there)
    (hhead' : Verification.Dialect.thenShould.head? there = some head') {added' : Option String}
    (hr : Reheads .thenShould .mockitoVerify added' there head' front) :
    Verification.Dialect.mockitoVerify.head? (withHead front head' there) = some head := by
  obtain rfl := Option.some.inj (hhead'.symm.trans hthere.head)
  obtain ⟨text, htext⟩ : ∃ text, Verification.Target.mockitoVerify.spell
      ⟨Verification.Dialect.thenShould.headLength, head.mock, head.mode, none, none, none⟩ (none.or added') =
        some text := by
    simp [Verification.Target.spell, hmock]
  obtain ⟨-, hback⟩ := hr.survives hhead' htext (hthere.mode ▸ hmode)
  rw [Verification.Dialect.head_mockitoVerify hhead]
  exact hback.head

theorem declared_of_added {heads : List Head} {name : String} (h : addedInOrder f target base heads = some name)
    {site : Site} (hsite : site ∈ sites) (args : List String) (edits : List Edit) :
    name = freshName f.identifiers base ∧
      ∃ start args', declareInOrder f start name args' ∈ declarationFor f args (some name) sites ++ edits := by
  refine ⟨?_, ?_⟩
  · unfold addedInOrder at h
    split at h
    case isTrue => exact (Option.some.inj h).symm
    case isFalse => cases h
  · cases sites with
    | nil => cases hsite
    | cons first rest => exact ⟨first.statementStart, args, .head _⟩

/-- What a conversion makes of the head of one of its chains. The variable in `added` is declared by the
conversion itself. -/
structure HeadConverted (f : File) (source : Verification.Dialect) (target : Verification.Target) (base : String)
    (planned : Planned) (chain : Chain) (head : Head) (added : Option String) (edit : Edit) : Prop where
  declared : ∀ name ∈ added, name = freshName f.identifiers base ∧
    ∃ start args, declareInOrder f start name args ∈ planned.edits
  ordered : target.usesInOrder = true → (head.inOrder.or added).isSome = true
  planned : edit ∈ planned.edits
  span : ∃ last, chain.get? (head.calls - 1) = some last ∧ edit.span = ⟨chain.span.start, last.span.stop⟩
  exists_front : ∃ front, Reheads source target added chain head front
  front : ∀ front, Reheads source target added chain head front → Chain.text ⟨front⟩ = edit.replacement ∧
    Survives source target added chain head (withHead front head chain)

theorem verification_head_survives_conversion (h : convertVerification f sites source target base = .ok planned)
    {cls : EntryClass} (hclass : target.entryClass? = some cls) {site : Site} (hsite : site ∈ sites)
    (hmode : ∀ a ∈ source.modeArg? site.chain, a.apiType ≠ some .inOrder) :
    ∃ head added edit, source.head? site.chain = some head ∧
      HeadConverted f source target base planned site.chain head added edit ∧
      (source = .mockitoVerify → target = .thenShould →
        ∀ front, Reheads source target added site.chain head front → ∀ file start name,
          let there : Site := ⟨withHead front head site.chain, start⟩
          ∃ head' back, Verification.Dialect.thenShould.head? there.chain = some head' ∧
            convertVerification file [there] .thenShould .mockitoVerify name = .ok back ∧
            ∀ front' added', Reheads .thenShould .mockitoVerify added' there.chain head' front' →
              Verification.Dialect.mockitoVerify.head? (withHead front' head' there.chain) = some head) := by
  obtain ⟨heads, edits, args, hreplaced, hedits⟩ := replaced_of_convertVerification h
  obtain ⟨head, hzip, hhead, e, he, hreplace⟩ := hreplaced.site hsite
  obtain ⟨text, last, htext, hlast, rfl⟩ := replaceHead_eq_ok.mp hreplace
  have hsurvives := fun front (hr : Reheads source target _ site.chain head front) => hr.survives hhead htext hmode
  obtain ⟨⟨mock, hmock⟩, hpieces⟩ := Verification.Target.pieces_of_spell hclass htext
  refine ⟨head, addedInOrder f target base heads, replace ⟨site.chain.span.start, last.span.stop⟩ text, hhead,
    ⟨?_, hpieces, ?_, ⟨last, hlast, rfl⟩, exists_reheads hclass hhead htext, hsurvives⟩, ?_⟩
  · intro name hname
    rw [hedits, hname]
    exact declared_of_added hname hsite _ _
  · rw [hedits]
    exact List.mem_append_right _ he
  · rintro rfl rfl front hr file start name there
    obtain ⟨-, hthere⟩ := hsurvives front hr
    have hthereHead : Verification.Dialect.thenShould.head? there.chain = _ := hthere.head
    obtain ⟨back, hback⟩ := convertVerification_mockitoVerify file name hthereHead hmock
    exact ⟨_, back, hthereHead, hback, fun front' added' hr' =>
      head_restored hhead hmock hmode hthere hthereHead hr'⟩

theorem verification_head_survives_conversion_added_order :
    let file := File.read "import org.mockito.*;class T\x7b\x7bMockito.verify(a,times(2)).b(1);\x7d\x7d"
    ∃ site planned added edit,
      convertVerification file [site] .mockitoVerify .thenShouldInOrder "order" = .ok planned ∧
      HeadConverted file .mockitoVerify .thenShouldInOrder "order" planned site.chain
        ⟨1, some "a", some "times(2)", none, none, none⟩ added edit := by
  intro file
  have hcomputed : (file.callAt? 40).any (fun place =>
      let site := siteOf file place
      (convertVerification file [site] .mockitoVerify .thenShouldInOrder "order").isOk &&
        Verification.Dialect.mockitoVerify.head? site.chain ==
          some ⟨1, some "a", some "times(2)", none, none, none⟩ &&
        (Verification.Dialect.mockitoVerify.modeArg? site.chain).all (·.apiType != some .inOrder)) = true := by
    decide +kernel
  obtain ⟨place, -, hchecked⟩ := (Option.any_eq_true _ _).mp hcomputed
  simp only [Bool.and_eq_true, beq_iff_eq] at hchecked
  obtain ⟨⟨hok, hread⟩, hmode⟩ := hchecked
  cases hplanned : convertVerification file [siteOf file place] .mockitoVerify .thenShouldInOrder "order" with
  | error rejection => rw [hplanned] at hok; cases hok
  | ok planned =>
    obtain ⟨head, added, edit, hhead, hconverted, -⟩ := verification_head_survives_conversion hplanned rfl
      (.head []) fun a ha => by simpa [Option.mem_def.mp ha] using hmode
    obtain rfl := Option.some.inj (hhead.symm.trans hread)
    exact ⟨siteOf file place, planned, added, edit, hplanned, hconverted⟩

end MockDialect.Conversion
