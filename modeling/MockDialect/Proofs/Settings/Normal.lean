import MockDialect.Proofs.Conversion.Results
import MockDialect.Settings.Reading

namespace MockDialect.Settings

open Chain Conversion Java Source

/-- Settings without anything that would be lost in writing them as calls. -/
structure Attributes.Normal (a : Attributes) : Prop where
  name : ∀ text ∈ a.name, isBlankName text = false
  answer : ∀ text ∈ a.answer, isDefaultAnswer text = false
  mode : a.serializableMode.isSome = true → a.serializable = true

namespace Attributes

variable {a b : Attributes}

theorem isBlankName_of_givenName {text given : String} (h : given ∈ givenName text) : isBlankName given = false := by
  unfold givenName at h
  split at h
  case isTrue => cases h
  case isFalse hblank =>
    obtain rfl := Option.some.inj h
    exact Bool.not_eq_true _ ▸ hblank

theorem isDefaultAnswer_of_givenAnswer {text given : String} (h : given ∈ givenAnswer text) :
    isDefaultAnswer given = false := by
  unfold givenAnswer at h
  split at h
  case isTrue => cases h
  case isFalse hdefault =>
    obtain rfl := Option.some.inj h
    exact Bool.not_eq_true _ ▸ hdefault

theorem normal_default : Normal {} := ⟨nofun, nofun, nofun⟩

theorem normal_apply (h : a.Normal) (call : BuilderCall) : (a.apply call).Normal := by
  obtain ⟨hname, hanswer, hmode⟩ := h
  cases call <;> refine ⟨?_, ?_, ?_⟩ <;> simp only [apply]
  case name.refine_1 text => exact fun _ hgiven => isBlankName_of_givenName hgiven
  case defaultAnswer.refine_2 text => exact fun _ hgiven => isDefaultAnswer_of_givenAnswer hgiven
  case serializable.refine_3 mode => exact fun _ => trivial
  all_goals assumption

theorem normal_foldl (h : a.Normal) (calls : List BuilderCall) : (calls.foldl apply a).Normal := by
  induction calls generalizing a with
  | nil => exact h
  | cons call calls ih => exact ih (normal_apply h call)

theorem normal_ofBuilderCalls (calls : List BuilderCall) : (ofBuilderCalls calls).Normal :=
  normal_foldl normal_default calls

theorem normal_ofSettingsChain {chain : Chain} (h : ofSettingsChain chain = .ok a) : a.Normal := by
  unfold ofSettingsChain at h
  split at h
  · cases h
  · split at h
    · cases h
    · obtain ⟨calls, -, hcalls⟩ := bind_eq_ok.mp h
      obtain rfl := Except.ok.inj hcalls
      exact normal_ofBuilderCalls calls

section

variable (a)

theorem foldl_lenient (set : Bool) :
    (if set then [.lenient] else []).foldl apply a = { a with lenient := a.lenient || set } := by
  cases set <;> simp [apply]

theorem foldl_stubOnly (set : Bool) :
    (if set then [.stubOnly] else []).foldl apply a = { a with stubOnly := a.stubOnly || set } := by
  cases set <;> simp [apply]

theorem foldl_name (name : Option String) : (name.map BuilderCall.name).toList.foldl apply a =
    { a with name := (name.map givenName).getD a.name } := by
  cases name <;> simp [apply]

theorem foldl_answer (answer : Option String) : (answer.map BuilderCall.defaultAnswer).toList.foldl apply a =
    { a with answer := (answer.map givenAnswer).getD a.answer } := by
  cases answer <;> simp [apply]

theorem foldl_strictness (strictness : Option Strictness) :
    (strictness.map BuilderCall.strictness).toList.foldl apply a =
      { a with strictness := strictness.or a.strictness } := by
  cases strictness <;> simp [apply]

theorem foldl_mockMaker (maker : Option String) :
    (maker.map BuilderCall.mockMaker).toList.foldl apply a = { a with mockMaker := maker.or a.mockMaker } := by
  cases maker <;> simp [apply]

theorem foldl_serializable (set : Bool) (mode : Option String) :
    (if set then [.serializable mode] else []).foldl apply a =
      { a with
        serializable := a.serializable || set
        serializableMode := if set then mode else a.serializableMode } := by
  cases set <;> simp [apply]

theorem foldl_extraInterfaces (types : List String) :
    (if types.isEmpty then [] else [.extraInterfaces types]).foldl apply a =
      { a with extraInterfaces := if types.isEmpty then a.extraInterfaces else types } := by
  cases types <;> simp [apply]

end

theorem ofBuilderCalls_toBuilderCalls (a : Attributes) : ofBuilderCalls a.toBuilderCalls =
    { a with
      name := a.name.bind givenName
      answer := a.answer.bind givenAnswer
      serializableMode := if a.serializable then a.serializableMode else none } := by
  simp only [ofBuilderCalls, toBuilderCalls, List.foldl_append, foldl_lenient, foldl_name, foldl_strictness,
    foldl_mockMaker, foldl_answer, foldl_serializable, foldl_stubOnly, foldl_extraInterfaces]
  cases a.name <;> cases a.answer <;> simp

theorem bind_givenName (h : ∀ text ∈ a.name, isBlankName text = false) : a.name.bind givenName = a.name := by
  cases hname : a.name with
  | none => rfl
  | some text => simp [givenName, h text hname]

theorem bind_givenAnswer (h : ∀ text ∈ a.answer, isDefaultAnswer text = false) :
    a.answer.bind givenAnswer = a.answer := by
  cases hanswer : a.answer with
  | none => rfl
  | some text => simp [givenAnswer, h text hanswer]

theorem ofBuilderCalls_toBuilderCalls_eq_iff : ofBuilderCalls a.toBuilderCalls = a ↔ a.Normal := by
  constructor
  · intro h
    rw [← h]
    exact normal_ofBuilderCalls a.toBuilderCalls
  · intro h
    have hmode : (if a.serializable then a.serializableMode else none) = a.serializableMode := by
      cases hmode : a.serializableMode with
      | none => simp
      | some mode => simp [h.mode (by rw [hmode]; rfl)]
    rw [ofBuilderCalls_toBuilderCalls, bind_givenName h.name, bind_givenAnswer h.answer, hmode]

theorem toBuilderCalls_eq_nil_iff (h : a.Normal) : a.toBuilderCalls = [] ↔ a.isDefault = true := by
  constructor
  · intro hnil
    rw [← ofBuilderCalls_toBuilderCalls_eq_iff.mpr h, hnil]
    decide
  · intro hdefault
    rw [show a = {} from eq_of_beq hdefault]
    rfl

/-- Settings that an annotation can give. -/
structure Annotated (a : Attributes) : Prop where
  normal : a.Normal
  mode : a.serializableMode = none

variable {f : File}

theorem readPair_eq_ok {key : String} {value : Node} (h : readPair f a key value = .ok b) :
    b.serializableMode = a.serializableMode ∧ (b.name = a.name ∨ b.name = givenName (f.spell value)) ∧
      (b.answer = a.answer ∨ b.answer = givenAnswer (f.spell value)) := by
  unfold readPair at h
  dsimp only at h
  split at h
  case h_1 | h_2 | h_3 | h_8 =>
    obtain rfl := Except.ok.inj h
    simp
  case h_4 | h_5 | h_6 | h_7 =>
    obtain ⟨set, -, h⟩ := bind_eq_ok.mp h
    obtain rfl := Except.ok.inj h
    simp
  case h_9 => cases h

theorem annotated_readPair (h : a.Annotated) {key : String} {value : Node} (hread : readPair f a key value = .ok b) :
    b.Annotated := by
  obtain ⟨hmode, hname, hanswer⟩ := readPair_eq_ok hread
  refine ⟨⟨fun given hgiven => ?_, fun given hgiven => ?_, ?_⟩, hmode.trans h.mode⟩
  · rcases hname with hkept | hset
    · exact h.normal.name given (hkept ▸ hgiven)
    · exact isBlankName_of_givenName (hset ▸ hgiven)
  · rcases hanswer with hkept | hset
    · exact h.normal.answer given (hkept ▸ hgiven)
    · exact isDefaultAnswer_of_givenAnswer (hset ▸ hgiven)
  · rw [hmode, h.mode]
    exact nofun

theorem annotated_readElement (h : a.Annotated) {element : Node} (hread : readElement f a element = .ok b) :
    b.Annotated := by
  unfold readElement at hread
  split at hread
  · cases hread
  · split at hread
    · obtain rfl := Except.ok.inj hread
      exact h
    · exact annotated_readPair h hread

theorem annotated_foldlM (h : a.Annotated) {elements : List Node}
    (hread : elements.foldlM (readElement f) a = .ok b) : b.Annotated := by
  induction elements generalizing a with
  | nil =>
    obtain rfl := Except.ok.inj hread
    exact h
  | cons element elements ih =>
    rw [List.foldlM_cons] at hread
    obtain ⟨next, hnext, hread⟩ := bind_eq_ok.mp hread
    exact ih (annotated_readElement h hnext) hread

theorem annotated_ofAnnotationNode {n : Node} (h : ofAnnotationNode f n = .ok a) : a.Annotated := by
  have hdefault : Annotated {} := ⟨normal_default, rfl⟩
  unfold ofAnnotationNode at h
  split at h
  · obtain rfl := Except.ok.inj h
    exact hdefault
  · exact annotated_foldlM hdefault h

end Attributes

end MockDialect.Settings
