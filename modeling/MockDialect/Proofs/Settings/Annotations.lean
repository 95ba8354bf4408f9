import MockDialect.Proofs.Settings.Normal
import MockDialect.Proofs.Source.Sound

namespace MockDialect.Settings

open Chain Conversion Java Source Text

inductive PairValue where
  | text (text : String)
  | list (texts : List String)
  deriving DecidableEq

def PairValue.spell : PairValue → String
  | text t => t
  | list ts => "\x7b" ++ ", ".intercalate ts ++ "\x7d"

structure Pair where
  key : String
  value : PairValue
  deriving DecidableEq

def Pair.spell (p : Pair) : String := p.key ++ " = " ++ p.value.spell

/-- As in `@Mock(name = "x")`. -/
def annotationOf : List Pair → String
  | [] => "@Mock"
  | pairs => "@Mock(" ++ ", ".intercalate (pairs.map Pair.spell) ++ ")"

def BuilderCall.pair : BuilderCall → Pair
  | lenient => ⟨"lenient", .text "true"⟩
  | name text => ⟨"name", .text text⟩
  | strictness s => ⟨"strictness", .text ("Mock.Strictness." ++ s.constant)⟩
  | mockMaker text => ⟨"mockMaker", .text text⟩
  | defaultAnswer text => ⟨"answer", .text text⟩
  | serializable _ => ⟨"serializable", .text "true"⟩
  | stubOnly => ⟨"stubOnly", .text "true"⟩
  | extraInterfaces [single] => ⟨"extraInterfaces", .text single⟩
  | extraInterfaces many => ⟨"extraInterfaces", .list many⟩

def Attributes.pairs (a : Attributes) : List Pair := a.toBuilderCalls.map BuilderCall.pair

theorem Attributes.pairTexts_eq (a : Attributes) : a.pairTexts = a.pairs.map Pair.spell := by
  obtain ⟨name, answer, interfaces, serializable, mode, stubOnly, lenient, strictness, maker⟩ := a
  simp only [pairTexts, pairs, toBuilderCalls, List.map_append]
  repeat' refine congrArg₂ (· ++ ·) ?_ ?_
  · cases lenient <;> rfl
  · cases name <;> rfl
  · cases strictness <;> rfl
  · cases maker <;> rfl
  · cases answer <;> rfl
  · cases serializable <;> rfl
  · cases stubOnly <;> rfl
  · rcases interfaces with _ | ⟨single, _ | _⟩ <;> rfl

theorem Attributes.annotationText_eq {a : Attributes} (h : a.serializableMode = none) :
    a.annotationText = .ok (annotationOf a.pairs) := by
  rw [annotationText, h, pairTexts_eq]
  cases a.pairs <;> rfl

/-- A node that reads a value. -/
def PairValue.ReadAt (f : File) (n : Node) : PairValue → Prop
  | text t => f.spell n = t
  | list ts => f.spell n = (list ts).spell ∧ n.kind = .elementValueArray ∧ n.codeChildren.map f.spell = ts

instance (f : File) (n : Node) : (v : PairValue) → Decidable (v.ReadAt f n)
  | .text t => inferInstanceAs (Decidable (f.spell n = t))
  | .list ts => inferInstanceAs (Decidable (f.spell n = (PairValue.list ts).spell ∧ _ ∧ _))

/-- An element of an annotation that reads a pair. -/
def Pair.ReadAt (f : File) (p : Pair) (element : Node) : Prop :=
  element.kind = .elementValuePair ∧ (element.child? .key).map f.spell = some p.key ∧
    ∃ value ∈ element.child? .value, p.value.ReadAt f value

instance (f : File) (p : Pair) (element : Node) : Decidable (p.ReadAt f element) :=
  inferInstanceAs (Decidable (_ ∧ _ ∧ _))

/-- An annotation that reads pairs, in their order. -/
def Annotates (f : File) (n : Node) (pairs : List Pair) : Prop :=
  if n.kind = .annotationMarker then pairs = []
  else ∃ arguments ∈ n.child? .arguments, List.Forall₂ (Pair.ReadAt f) pairs arguments.codeChildren

instance (f : File) (n : Node) (pairs : List Pair) : Decidable (Annotates f n pairs) :=
  inferInstanceAs (Decidable (if n.kind = .annotationMarker then pairs = [] else ∃ arguments ∈ _, _))

def isBraced (text : String) : Bool := text.toList.head? == some '\x7b'

theorem isBraced_spell {f : File} {n : Node} (hf : f.Sound) (hin : f.tree.Within n)
    (hkind : n.kind = .elementValueArray) : isBraced (f.spell n) = true := by
  have hplaced : n.Placed f.text := hin.placed hf.placed
  obtain ⟨hchar, brace, rest, hchildren, -, hspan⟩ := (hin.all hf.formed).self.braced (by rw [hkind]; rfl)
  have hbrace := (hplaced.laid.of_mem (hchildren ▸ List.mem_cons_self : brace ∈ n.children)).2.1
  have hlt : n.span.start < n.span.stop := by
    rw [hspan] at hbrace
    exact hbrace
  rw [isBraced, File.spell, File.spanText, hchar.head?_slice hplaced.cuts.self hlt]
  rfl

def BuilderCall.Pairable : BuilderCall → Prop
  | serializable mode => mode = none
  | extraInterfaces [single] => isBraced single = false
  | _ => True

section

variable {f : File} {a : Attributes} {call : BuilderCall}

theorem readElement_of_readAt {p : Pair} {element : Node} (h : p.ReadAt f element) :
    ∃ value ∈ element.children, p.value.ReadAt f value ∧ readElement f a element = readPair f a p.key value := by
  obtain ⟨hkind, hkey, value, hvalue, hread⟩ := h
  refine ⟨value, Node.mem_children_of_child? hvalue, hread, ?_⟩
  rw [readElement, if_neg (not_not.mpr hkind), Option.mem_def.mp hvalue, hkey]
  rfl

theorem readStrictness_constant (s : Strictness) :
    readStrictness ("Mock.Strictness." ++ s.constant) = .ok (some s) := by
  have hconstant : Strictness.ofConstant? (trim (simpleName ("Mock.Strictness." ++ s.constant))) = some s := by
    cases s <;> decide +kernel
  rw [readStrictness, hconstant]

theorem readInterfaces_of_readAt {types : List String} {value : Node} (hf : f.Sound) (hin : f.tree.Within value)
    (hpairable : (BuilderCall.extraInterfaces types).Pairable)
    (h : (BuilderCall.extraInterfaces types).pair.value.ReadAt f value) : readInterfaces f value = types := by
  match types, hpairable, h with
  | [single], hpairable, h =>
    have hspell : f.spell value = single := h
    have hbraced : isBraced single = false := hpairable
    have hkind : value.kind ≠ .elementValueArray := by
      intro hlist
      rw [← hspell, isBraced_spell hf hin hlist] at hbraced
      cases hbraced
    rw [readInterfaces, if_neg hkind, hspell]
  | [], _, h => rw [readInterfaces, if_pos h.2.1, h.2.2]
  | _ :: _ :: _, _, h => rw [readInterfaces, if_pos h.2.1, h.2.2]

theorem readPair_of_readAt {value : Node} (hf : f.Sound) (hin : f.tree.Within value)
    (ha : a.serializableMode = none) (hpairable : call.Pairable) (h : call.pair.value.ReadAt f value) :
    readPair f a call.pair.key value = .ok (a.apply call) := by
  cases call with
  | lenient | stubOnly =>
    simp only [BuilderCall.pair, readPair, show f.spell value = "true" from h]
    rfl
  | name text | mockMaker text | defaultAnswer text =>
    simp only [BuilderCall.pair, readPair, show f.spell value = text from h, Attributes.apply]
  | strictness s =>
    simp only [BuilderCall.pair, readPair, show f.spell value = _ from h, readStrictness_constant]
    rfl
  | serializable mode =>
    obtain rfl : mode = none := hpairable
    simp only [BuilderCall.pair, readPair, show f.spell value = "true" from h, Attributes.apply, ← ha]
    rfl
  | extraInterfaces types =>
    have hkey : (BuilderCall.extraInterfaces types).pair.key = "extraInterfaces" := by
      rcases types with _ | ⟨single, _ | _⟩ <;> rfl
    simp only [hkey, readPair, readInterfaces_of_readAt hf hin hpairable h, Attributes.apply]

theorem mode_apply (ha : a.serializableMode = none) (hpairable : call.Pairable) :
    (a.apply call).serializableMode = none := by
  cases call with
  | serializable mode => exact hpairable
  | _ => simpa only [Attributes.apply] using ha

theorem foldlM_readElement {calls : List BuilderCall} {elements : List Node} (hf : f.Sound)
    (hin : ∀ element ∈ elements, f.tree.Within element) (ha : a.serializableMode = none)
    (hpairable : ∀ call ∈ calls, call.Pairable)
    (h : List.Forall₂ (fun call element => call.pair.ReadAt f element) calls elements) :
    elements.foldlM (readElement f) a = .ok (calls.foldl Attributes.apply a) := by
  induction h generalizing a with
  | nil => rfl
  | cons hread _ ih =>
    obtain ⟨hhead, htail⟩ := List.forall_mem_cons.mp hpairable
    obtain ⟨hinHead, hinTail⟩ := List.forall_mem_cons.mp hin
    obtain ⟨value, hmem, hvalue, helement⟩ := readElement_of_readAt hread
    rw [List.foldlM_cons, helement, readPair_of_readAt hf (hinHead.child hmem) ha hhead hvalue]
    exact ih hinTail (mode_apply ha hhead) htail

end

namespace Attributes

variable {a : Attributes}

/-- Whether the only interface is itself a list. -/
def hasLoneList (a : Attributes) : Bool :=
  match a.extraInterfaces with
  | [single] => isBraced single
  | _ => false

theorem pairable_of_mem (hmode : a.serializableMode = none) (hlone : a.hasLoneList = false) :
    ∀ call ∈ a.toBuilderCalls, call.Pairable := by
  intro call hcall
  cases call with
  | serializable mode =>
    have hgiven : a.serializable = true ∧ mode = a.serializableMode := by simpa [toBuilderCalls] using hcall
    exact hgiven.2.trans hmode
  | extraInterfaces types =>
    have hgiven : a.extraInterfaces ≠ [] ∧ types = a.extraInterfaces := by simpa [toBuilderCalls] using hcall
    obtain rfl := hgiven.2
    rcases hinterfaces : a.extraInterfaces with _ | ⟨single, _ | ⟨_, _⟩⟩
    · exact trivial
    · rw [hasLoneList, hinterfaces] at hlone
      exact hlone
    · exact trivial
  | _ => exact trivial

theorem ofAnnotationNode_of_annotates {f : File} {n : Node} (hf : f.Sound) (hin : f.tree.Within n)
    (ha : a.Annotated) (hlone : a.hasLoneList = false) (h : Annotates f n a.pairs) :
    ofAnnotationNode f n = .ok a := by
  have hback : ofBuilderCalls a.toBuilderCalls = a := ofBuilderCalls_toBuilderCalls_eq_iff.mpr ha.normal
  unfold Annotates at h
  rw [ofAnnotationNode]
  split at h
  · next kind =>
    rw [List.map_eq_nil_iff.mp h] at hback
    rw [if_pos kind, ← hback]
    rfl
  · next kind =>
    obtain ⟨arguments, found, reads⟩ := h
    have hinside : ∀ element ∈ arguments.codeChildren, f.tree.Within element := fun element helement =>
      (hin.child (Node.mem_children_of_child? found)).child
        (List.mem_of_mem_filter (List.mem_of_mem_filter helement))
    rw [pairs, List.forall₂_map_left_iff] at reads
    rw [if_neg kind, Option.mem_def.mp found]
    exact (foldlM_readElement hf hinside rfl (pairable_of_mem ha.mode hlone) reads).trans (congrArg _ hback)

end Attributes

open Attributes in
/-- Calls, chains and annotations agree on settings. The calls of some settings give them back just if these are in
normal form, as all are that were read; so does an annotation with the pairs of settings that an annotation gave,
unless a list is their only interface. -/
theorem settings_spellings_agree :
    (∀ a : Attributes, ofBuilderCalls a.toBuilderCalls = a ↔ a.Normal) ∧
    (∀ calls, (ofBuilderCalls calls).Normal) ∧
    (∀ chain a, ofSettingsChain chain = .ok a → a.Normal) ∧
    (∀ f n a, ofAnnotationNode f n = .ok a → a.Normal ∧ a.annotationText = .ok (annotationOf a.pairs) ∧
      (a.hasLoneList = false → ∀ text m, (File.read text).tree.Within m → Annotates (File.read text) m a.pairs →
        ofAnnotationNode (File.read text) m = .ok a)) ∧
    ∀ a : Attributes, a.Normal → (a.toBuilderCalls = [] ↔ a.isDefault = true) := by
  refine ⟨fun a => ofBuilderCalls_toBuilderCalls_eq_iff, normal_ofBuilderCalls, fun chain a => normal_ofSettingsChain,
    fun f n a h => ?_, fun a => toBuilderCalls_eq_nil_iff⟩
  have ha : a.Annotated := annotated_ofAnnotationNode h
  refine ⟨ha.normal, annotationText_eq ha.mode, fun hlone text m hm hreads => ?_⟩
  exact ofAnnotationNode_of_annotates (File.read_sound text) hm ha hlone hreads

/-- The annotation in a file of one. -/
def soleAnnotation? (f : File) : Option Node := (f.cursors.find? (·.kind == .annotationCall)).map (·.node)

theorem within_of_soleAnnotation? {f : File} {n : Node} (h : soleAnnotation? f = some n) : f.tree.Within n := by
  obtain ⟨c, hc, rfl⟩ := Option.map_eq_some_iff.mp h
  exact (Cursor.in_of_mem_all (List.mem_of_find?_eq_some hc)).within

theorem settings_spellings_agree_reordered :
    let rendered := "@Mock(name = \"x\", stubOnly = true, extraInterfaces = \x7bA.class, B.class\x7d)"
    let f := File.read "class T\x7b@Mock(extraInterfaces=\x7bA.class, B.class\x7d, stubOnly=true, name=\"x\") I i;\x7d"
    let g := File.read ("class T\x7b" ++ rendered ++ " I i;\x7d")
    ∃ n m a, soleAnnotation? f = some n ∧ soleAnnotation? g = some m ∧ ofAnnotationNode f n = .ok a ∧
      a.annotationText = .ok rendered ∧ a.isDefault = false ∧ Annotates g m a.pairs ∧
      ofAnnotationNode g m = .ok a := by
  intro rendered f g
  have hcomputed : (soleAnnotation? f).any (fun n => (soleAnnotation? g).any fun m =>
      (ofAnnotationNode f n).toOption.any fun a => !a.isDefault && !a.hasLoneList && decide (Annotates g m a.pairs) &&
        annotationOf a.pairs == rendered) = true := by
    decide +kernel
  obtain ⟨n, hn, hcomputed⟩ := (Option.any_eq_true _ _).mp hcomputed
  obtain ⟨m, hm, hcomputed⟩ := (Option.any_eq_true _ _).mp hcomputed
  obtain ⟨a, ha, hcomputed⟩ := (Option.any_eq_true _ _).mp hcomputed
  simp only [Bool.and_eq_true, Bool.not_eq_true', decide_eq_true_eq, beq_iff_eq] at hcomputed
  obtain ⟨⟨⟨hdefault, hlone⟩, hreads⟩, htext⟩ := hcomputed
  have hread : ofAnnotationNode f n = .ok a := eq_ok_of_toOption ha
  obtain ⟨-, hspell, hback⟩ := settings_spellings_agree.2.2.2.1 f n a hread
  rw [htext] at hspell
  exact ⟨n, m, a, hn, hm, hread, hspell, hdefault, hreads,
    hback hlone _ m (within_of_soleAnnotation? hm) hreads⟩

/-- A list that is the only interface loses its outer braces, and then its elements are the interfaces. -/
theorem lone_list_not_read_back :
    let rendered := "@Mock(extraInterfaces = \x7bA.class, B.class\x7d)"
    let f := File.read "class T\x7b@Mock(extraInterfaces = \x7b\x7bA.class, B.class\x7d\x7d) I i;\x7d"
    let g := File.read ("class T\x7b" ++ rendered ++ " I i;\x7d")
    ∃ n m a, soleAnnotation? f = some n ∧ soleAnnotation? g = some m ∧ ofAnnotationNode f n = .ok a ∧
      a.annotationText = .ok rendered ∧ Annotates g m a.pairs ∧ ofAnnotationNode g m ≠ .ok a := by
  intro rendered f g
  have hcomputed : (soleAnnotation? f).any (fun n => (soleAnnotation? g).any fun m =>
      (ofAnnotationNode f n).toOption.any fun a => decide (Annotates g m a.pairs) &&
        a.annotationText.toOption == some rendered && (ofAnnotationNode g m).toOption != some a) = true := by
    decide +kernel
  obtain ⟨n, hn, hcomputed⟩ := (Option.any_eq_true _ _).mp hcomputed
  obtain ⟨m, hm, hcomputed⟩ := (Option.any_eq_true _ _).mp hcomputed
  obtain ⟨a, ha, hcomputed⟩ := (Option.any_eq_true _ _).mp hcomputed
  simp only [Bool.and_eq_true, decide_eq_true_eq, beq_iff_eq, bne_iff_ne] at hcomputed
  obtain ⟨⟨hreads, htext⟩, hother⟩ := hcomputed
  refine ⟨n, m, a, hn, hm, eq_ok_of_toOption ha, eq_ok_of_toOption htext, hreads, fun hback => hother ?_⟩
  rw [hback]
  rfl

end MockDialect.Settings
