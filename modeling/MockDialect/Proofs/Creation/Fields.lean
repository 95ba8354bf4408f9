import MockDialect.Proofs.Conversion.Frame
import MockDialect.Proofs.Creation.Moves
import MockDialect.Proofs.Java.Braces
import MockDialect.Proofs.Settings.Annotations
import MockDialect.Proofs.Settings.Builders

namespace MockDialect.Creation

open Chain Conversion Edit Java Settings Source Text

variable {f : File}

theorem ofSecondArgument_cases {b : Arg} {a : Attributes} (h : ofSecondArgument f b = .ok a) :
    a = .ofBuilderCalls [overloadSetting f b] ∨
      ∃ c, Cursor.In f.tree c ∧ c.isCall = true ∧ ofSettingsChain (chainOf f c) = .ok a := by
  unfold ofSecondArgument at h
  split at h
  case h_1 =>
    split at h
    case isTrue =>
      unfold settingsOfVariable at h
      split at h
      case h_1 call hcall =>
        obtain ⟨span, -, hcall⟩ := Option.bind_eq_some_iff.mp hcall
        obtain ⟨hin, hisCall⟩ := callWithSpan?_in hcall
        exact .inr ⟨call, hin, hisCall, h⟩
      case h_2 => cases h
    case isFalse => exact .inl (Except.ok.inj h).symm
  case h_2 => exact .inl (Except.ok.inj h).symm
  case h_3 =>
    split at h
    case h_1 call hcall =>
      obtain ⟨hin, hisCall⟩ := callWithSpan?_in hcall
      exact .inr ⟨call, hin, hisCall, h⟩
    case h_2 => cases h
  case h_4 => cases h

theorem ofMockCall_cases {n : Node} {type : String} {a : Attributes} (h : ofMockCall f n = .ok (type, a)) :
    a = {} ∨ ∃ b, ofSecondArgument f b = .ok a := by
  unfold ofMockCall at h
  split at h
  · cases h
  · split at h
    · cases h
    · split at h
      · obtain ⟨mocked, -, h⟩ := bind_eq_ok.mp h
        exact .inl (Prod.mk.inj (Except.ok.inj h)).2.symm
      · obtain ⟨mocked, -, h⟩ := bind_eq_ok.mp h
        obtain ⟨settings, hsettings, h⟩ := bind_eq_ok.mp h
        obtain rfl := (Prod.mk.inj (Except.ok.inj h)).2
        exact .inr ⟨_, hsettings⟩
      · cases h

theorem isBraced_lone_argument (source : String) {c : Cursor} (hc : Cursor.In (File.read source).tree c) {call : Call}
    (hcall : call ∈ (chainOf (File.read source) c).calls) {arg : Arg} (hargs : call.args = [arg]) :
    isBraced arg.text = false := by
  have hf := File.read_sound source
  obtain ⟨l, hl, hlcall, hread⟩ := exists_link hc hcall
  obtain ⟨-, -, list, -, hlist, -⟩ := readCall?_eq hread
  rw [args_of_readCall? hread hlist] at hargs
  obtain ⟨m, hm, rfl⟩ := List.map_eq_singleton_iff.mp hargs
  have hlistIn := hl.within.child (Node.mem_children_of_child? hlist)
  have hmIn := hlistIn.child (mem_children_of_mem_codeChildren (hm ▸ .head _ : m ∈ list.codeChildren))
  have hplaced := hmIn.placed hf.placed
  have hunbraced := (hlistIn.all (File.read_unbraced source)).self (kind_of_arguments hf hl.within hlcall hlist) m
    (by rw [hm]; rfl)
  rw [text_readArg, isBraced, beq_eq_false_iff_ne]
  exact fun hhead => hunbraced (charAt_of_head?_slice hplaced.cuts.self hplaced.wellFormed.ordered hhead)

theorem annotable_ofMockCall {source : String} {n : Node} {type : String} {a : Attributes}
    (h : ofMockCall (File.read source) n = .ok (type, a)) : a.Normal ∧ a.hasLoneList = false := by
  rcases ofMockCall_cases h with rfl | ⟨b, hb⟩
  · exact ⟨Attributes.normal_default, rfl⟩
  rcases ofSecondArgument_cases hb with rfl | ⟨c, hc, -, hchain⟩
  · refine ⟨Attributes.normal_ofBuilderCalls _, ?_⟩
    unfold overloadSetting
    split <;> rfl
  · refine ⟨Attributes.normal_ofSettingsChain hchain, ?_⟩
    -- a single interface is the only argument of its call
    unfold Attributes.hasLoneList
    split
    case h_1 single hsingle =>
      obtain ⟨call, hcall, htexts⟩ := (exists_args_of_ofSettingsChain hchain).2.2 (by rw [hsingle]; nofun)
      obtain ⟨arg, hargs, rfl⟩ := List.map_eq_singleton_iff.mp (htexts.trans hsingle)
      exact isBraced_lone_argument source hc hcall hargs
    case h_2 => rfl

/-- What a call or a field creates: a mock with its settings, or a spy, on an instance if one is given. -/
inductive Created where
  | mock (attributes : Attributes)
  | spy (given : Option String)

namespace Created

def kind : Created → CreationKind
  | mock _ => .mock
  | spy _ => .spy

/-- The shortest call that creates it. -/
def spell (type : String) : Created → String
  | mock a => a.creationText type
  | spy given => "Mockito.spy(" ++ given.getD (type ++ ".class") ++ ")"

/-- The annotation of a field that creates it. -/
def marker : Created → String
  | mock a => annotationOf a.pairs
  | spy _ => "@Spy"

def initializer : Created → Option String
  | mock _ => none
  | spy given => given

/-- An annotation that reads the settings of a mock. -/
def MarkedAt (g : File) (n : Node) : Created → Prop
  | mock a => Annotates g n a.pairs
  | spy _ => True

/-- An annotation that gives the settings of a mock. -/
def GivenAt (g : File) (n : Node) : Created → Prop
  | mock a => ofAnnotationNode g n = .ok a
  | spy _ => True

end Created

def endsInBody (text : String) : Bool := (trimChars text.toList).getLast? == some '\x7d'

def SpiedAs (type : String) (given : Option String) (x : Arg) : Prop :=
  x.kind = .classLiteral type ∧ given = none ∨
    ∃ hasArguments, x.kind = .newInstance type hasArguments ∧
      given = if hasArguments || endsInBody x.text then some x.text else none

/-- What a creation call creates, and the type that it names. -/
def Creates (f : File) (c : CreationCall) (type : String) : Created → Prop
  | .mock a => c.kind = .mock ∧ ofMockCall f c.place.node = .ok (type, a) ∧ a.serializableMode = none
  | .spy given => c.kind = .spy ∧ ∃ x, c.call.args = [x] ∧ SpiedAs type given x

theorem orSetting_eq_ok {α : Type} {x : Except SettingError α} {a : α} (h : orSetting x = .ok a) : x = .ok a := by
  cases x with
  | error e => cases h
  | ok b => exact congrArg _ (Except.ok.inj h)

theorem mode_of_annotationText {a : Attributes} {text : String} (h : a.annotationText = .ok text) :
    a.serializableMode = none := by
  unfold Attributes.annotationText at h
  split at h
  case isTrue => cases h
  case isFalse hmode => exact Option.not_isSome_iff_eq_none.mp hmode

theorem fieldShape_eq_ok {c : CreationCall} {shape : FieldShape} (h : fieldShape f c = .ok shape) :
    ∃ created, Creates f c shape.type created ∧ shape.marker = created.marker ∧
      shape.initializer = created.initializer := by
  unfold fieldShape at h
  split at h
  case h_1 hkind =>
    obtain ⟨⟨type, a⟩, hcall, h⟩ := bind_eq_ok.mp h
    obtain ⟨text, htext, h⟩ := bind_eq_ok.mp h
    obtain rfl := Except.ok.inj h
    have hmode := mode_of_annotationText (orSetting_eq_ok htext)
    rw [Attributes.annotationText_eq hmode] at htext
    exact ⟨.mock a, ⟨hkind, orSetting_eq_ok hcall, hmode⟩, (Except.ok.inj htext).symm, rfl⟩
  case h_2 hkind =>
    unfold spiedShape at h
    split at h
    case h_2 => cases h
    case h_1 x hargs =>
      split at h
      case h_1 type htype =>
        obtain rfl := Except.ok.inj h
        exact ⟨.spy none, ⟨hkind, x, hargs, .inl ⟨htype, rfl⟩⟩, rfl, rfl⟩
      case h_2 type hasArguments htype =>
        obtain rfl := Except.ok.inj h
        exact ⟨.spy _, ⟨hkind, x, hargs, .inr ⟨hasArguments, htype, rfl⟩⟩, rfl, rfl⟩
      case h_3 => cases h

/-- The type of the field for a creation call: that of the local variable, or what is created. -/
def fieldType (f : File) (c : CreationCall) (type : String) : String :=
  match localVariable? f c.place with
  | some v => if v.type = "var" then type else v.type
  | none => type

def fieldName (f : File) (c : CreationCall) (type : String) : String :=
  match localVariable? f c.place with
  | some v => v.name
  | none => freshName f.identifiers (lowerCamel type)

/-- A field without its annotation. -/
def fieldText (type name : String) (initializer : Option String) : String :=
  type ++ " " ++ name ++
    match initializer with
    | some value => " = " ++ value ++ ";"
    | none => ";"

theorem fieldFor_eq_ok {body : Node} {c : CreationCall} {shape : FieldShape} {type name : String} {removal : Edit}
    (h : fieldFor f body c shape = .ok (type, name, removal)) :
    type = fieldType f c shape.type ∧ name = fieldName f c shape.type ∧
      (∀ v, localVariable? f c.place = some v → removal = replace (wholeLines f.text v.span) "") ∧
      (localVariable? f c.place = none → removal = replace c.place.span name) := by
  revert h
  unfold fieldFor fieldType fieldName
  cases localVariable? f c.place with
  | some v =>
    intro h
    dsimp only at h ⊢
    split at h
    case isTrue => cases h
    case isFalse =>
      simp only [Except.ok.injEq, Prod.mk.injEq] at h
      obtain ⟨rfl, rfl, rfl⟩ := h
      exact ⟨rfl, rfl, fun w hw => Option.some.inj hw ▸ rfl, nofun⟩
  | none =>
    intro h
    simp only [Except.ok.injEq, Prod.mk.injEq] at h
    obtain ⟨rfl, rfl, rfl⟩ := h
    exact ⟨rfl, rfl, nofun, fun _ => rfl⟩

theorem planToField_cases {selection : Selection} {plan : Plan} (h : planToField f selection = .ok plan) :
    ∃ c body shape type name removal, creationCall? f selection = some c ∧
      c.place.enclosing? .classBody = some body ∧ fieldShape f c = .ok shape ∧
      fieldFor f body.node c shape = .ok (type, name, removal) ∧
      plan.edits.Perm ([removal, insertField f.text body.node shape.marker (fieldText type name shape.initializer)] ++
        (planImports f.imports [c.kind.markerClass]).toList) := by
  unfold planToField at h
  split at h
  case h_2 => cases h
  case h_1 c hc =>
    split at h
    case h_2 => cases h
    case h_1 body hbody =>
      obtain ⟨shape, hshape, h⟩ := bind_eq_ok.mp h
      obtain ⟨⟨type, name, removal⟩, hfield, h⟩ := bind_eq_ok.mp h
      refine ⟨c, body, shape, type, name, removal, hc, hbody, hshape, hfield, ?_⟩
      rw [edits_of_planOf h]
      exact Order.sortBy_perm _ _

theorem edits_of_planToField {selection : Selection} {plan : Plan} (h : planToField f selection = .ok plan) :
    ∃ c body type created removal, creationCall? f selection = some c ∧
      c.place.enclosing? .classBody = some body ∧ Creates f c type created ∧
      (localVariable? f c.place = none → removal = replace c.place.span (fieldName f c type)) ∧
      plan.edits.Perm ([removal, insertField f.text body.node created.marker
        (fieldText (fieldType f c type) (fieldName f c type) created.initializer)] ++
          (planImports f.imports [c.kind.markerClass]).toList) := by
  obtain ⟨c, body, shape, type, name, removal, hc, hbody, hshape, hfield, hedits⟩ := planToField_cases h
  obtain ⟨created, hcreated, hmarker, hinitializer⟩ := fieldShape_eq_ok hshape
  obtain ⟨rfl, rfl, -, hremoval⟩ := fieldFor_eq_ok hfield
  rw [hmarker, hinitializer] at hedits
  exact ⟨c, body, shape.type, created, removal, hc, hbody, hcreated, hremoval, hedits⟩

theorem planToField_eq_ok {selection : Selection} {plan : Plan} (h : planToField f selection = .ok plan) :
    ∃ c body type created, creationCall? f selection = some c ∧ c.place.enclosing? .classBody = some body ∧
      Creates f c type created ∧ insertField f.text body.node created.marker
        (fieldText (fieldType f c type) (fieldName f c type) created.initializer) ∈ plan.edits := by
  obtain ⟨c, body, type, created, removal, hc, hbody, hcreated, -, hedits⟩ := edits_of_planToField h
  exact ⟨c, body, type, created, hc, hbody, hcreated, hedits.mem_iff.mpr (.tail _ (.head _))⟩

/-- A field of a file that reads what is created, with its type and name. -/
structure FieldAt (g : File) (type name : String) (created : Created) (field : MockField) : Prop where
  found : ∃ offset, mockField? g offset = some field
  kind : field.kind = created.kind
  type : field.type = type
  name : field.name = name
  initializer : field.initializer = created.initializer
  marker : created.MarkedAt g field.marker

theorem within_creationMarker? {field marker : Node} {kind : CreationKind}
    (h : creationMarker? f field = some (marker, kind)) : field.Within marker := by
  unfold creationMarker? at h
  split at h
  case h_1 => cases h
  case h_2 modifiers hmodifiers =>
    dsimp only at h
    split at h
    case h_2 => cases h
    case h_1 single hsingle =>
      obtain rfl := Option.some.inj h
      have hmem := List.mem_singleton_self (marker, kind)
      rw [← hsingle] at hmem
      obtain ⟨m, hm, hmarker⟩ := List.mem_filterMap.mp hmem
      split at hmarker
      case isFalse => cases hmarker
      case isTrue =>
        obtain ⟨found, -, hfound⟩ := Option.map_eq_some_iff.mp hmarker
        obtain rfl := (Prod.mk.inj hfound).1
        exact (Node.Within.child .self (List.mem_of_find?_eq_some hmodifiers)).child
          (mem_children_of_mem_codeChildren hm)

def Created.imports : Created → List String
  | mock a => a.requiredImports
  | spy _ => [Api.EntryClass.mockito.qualifiedName]

theorem planToCall_cases {selection : Selection} {method : String} {plan : Plan}
    (h : planToCall f selection method = .ok plan) :
    ∃ field creation imports block, mockField? f (selectedOffset f selection) = some field ∧
      creationOf f field = .ok (creation, imports) ∧ methodBody? f field.place method = some block ∧
      plan.edits.Perm ([replace (withBlankLineAfter f.text (wholeLines f.text field.place.span)) "",
        insertStatement f.text block (field.type ++ " " ++ field.name ++ " = " ++ creation ++ ";")] ++
          (planImports f.imports imports).toList) := by
  unfold planToCall at h
  split at h
  case h_2 => cases h
  case h_1 field hfield =>
    obtain ⟨⟨creation, imports⟩, hcreation, h⟩ := bind_eq_ok.mp h
    dsimp only at h
    split at h
    case h_2 => cases h
    case h_1 block hblock =>
      refine ⟨field, creation, imports, block, hfield, hcreation, hblock, ?_⟩
      rw [edits_of_planOf h]
      exact Order.sortBy_perm _ _

theorem planToCall_eq_ok {selection : Selection} {method creation : String} {imports : List String} {plan : Plan}
    {field : MockField} (hfield : mockField? f (selectedOffset f selection) = some field)
    (hcreation : creationOf f field = .ok (creation, imports)) (h : planToCall f selection method = .ok plan) :
    ∃ block,
      insertStatement f.text block (field.type ++ " " ++ field.name ++ " = " ++ creation ++ ";") ∈ plan.edits := by
  obtain ⟨found, created, _, block, hfound, hcreated, -, hedits⟩ := planToCall_cases h
  obtain rfl := Option.some.inj (hfield.symm.trans hfound)
  obtain ⟨rfl, -⟩ := Prod.mk.inj (Except.ok.inj (hcreation.symm.trans hcreated))
  exact ⟨block, hedits.mem_iff.mpr (.tail _ (.head _))⟩

/-- A field that creates something of a type, and from which a call that does can be had. -/
structure Recreates (g : File) (created : Created) (type name : String) (field : MockField) : Prop where
  settings : created.GivenAt g field.marker
  creation : creationOf g field = .ok (created.spell (rawType type), created.imports)
  statement : ∀ selection method plan, mockField? g (selectedOffset g selection) = some field →
    planToCall g selection method = .ok plan → ∃ block, insertStatement g.text block
      (type ++ " " ++ name ++ " = " ++ created.spell (rawType type) ++ ";") ∈ plan.edits

theorem recreates_of_fieldAt {source source' : String} {c : CreationCall} {created : Created}
    {called type name : String} {field : MockField} (hcreated : Creates (File.read source) c called created)
    (h : FieldAt (File.read source') type name created field) :
    Recreates (File.read source') created type name field := by
  have hread : created.GivenAt (File.read source') field.marker ∧
      creationOf (File.read source') field = .ok (created.spell (rawType type), created.imports) := by
    rw [creationOf, h.kind, ← h.type, h.initializer]
    cases created with
    | spy given => exact ⟨trivial, rfl⟩
    | mock a =>
      obtain ⟨-, hcall, hmode⟩ := hcreated
      obtain ⟨hnormal, hlone⟩ := annotable_ofMockCall hcall
      obtain ⟨offset, hoffset⟩ := h.found
      obtain ⟨hin, -, hmarker⟩ := mockField?_in hoffset
      have hread : ofAnnotationNode (File.read source') field.marker = .ok a :=
        Attributes.ofAnnotationNode_of_annotates (File.read_sound source')
          (hin.within.trans (within_creationMarker? hmarker)) ⟨hnormal, hmode⟩ hlone h.marker
      refine ⟨hread, ?_⟩
      dsimp only [Created.kind]
      rw [hread]
      rfl
  refine ⟨hread.1, hread.2, fun selection method plan hselected hplan => ?_⟩
  have hstatement := planToCall_eq_ok hselected hread.2 hplan
  rwa [h.type, h.name] at hstatement

/-- Moving a creation call into a field keeps what is created: the settings of a mock, and the instance that is spied
on wherever the field could not make the same one. The type is kept too unless a local variable has another. -/
theorem creation_kept_in_field (source : String) (selection : Selection) (plan : Plan)
    (h : planToField (File.read source) selection = .ok plan) :
    let f := File.read source
    ∃ c body type created, creationCall? f selection = some c ∧ c.place.enclosing? .classBody = some body ∧
      Creates f c type created ∧
      insertField f.text body.node created.marker
        (fieldText (fieldType f c type) (fieldName f c type) created.initializer) ∈ plan.edits ∧
      ∀ source' field, FieldAt (File.read source') (fieldType f c type) (fieldName f c type) created field →
        Recreates (File.read source') created (fieldType f c type) (fieldName f c type) field := by
  intro f
  obtain ⟨c, body, type, created, hc, hbody, hcreated, hedit⟩ := planToField_eq_ok h
  exact ⟨c, body, type, created, hc, hbody, hcreated, hedit, fun source' field => recreates_of_fieldAt hcreated⟩

theorem creation_kept_in_field_settings :
    let before := "import org.mockito.*;class A\x7bvoid t()\x7bvar s=Mockito.mock(S.class,Mockito.withSettings()" ++
      ".stubOnly());\x7d\x7d"
    let after := "import org.mockito.*;class A\x7b\n    @Mock(stubOnly = true)\n    S s;\nvoid t()\x7b\x7d\x7d"
    ∃ plan c a field, planToField (File.read before) (.caret 52) = .ok plan ∧ plan.preview before = .ok after ∧
      Creates (File.read before) c "S" (.mock a) ∧ FieldAt (File.read after) "S" "s" (.mock a) field ∧
      Recreates (File.read after) (.mock a) "S" "s" field := by
  intro before after
  let f := File.read before
  let g := File.read after
  have hcomputed : (planToField f (.caret 52)).toOption.any (fun plan =>
      (plan.preview before).toOption == some after && (creationCall? f (.caret 52)).any fun c =>
        decide (c.kind = .mock ∧ fieldType f c "S" = "S" ∧ fieldName f c "S" = "s") &&
        (ofMockCall f c.place.node).toOption.any fun mocked => (mockField? g 61).any fun field =>
          decide (mocked.1 = "S" ∧ mocked.2.serializableMode = none ∧ field.kind = .mock ∧ field.type = "S" ∧
            field.name = "s" ∧ field.initializer = none ∧ Annotates g field.marker mocked.2.pairs)) = true := by
    decide +kernel
  obtain ⟨plan, hplan, hcomputed⟩ := (Option.any_eq_true _ _).mp hcomputed
  rw [Bool.and_eq_true, beq_iff_eq] at hcomputed
  obtain ⟨hpreview, hcomputed⟩ := hcomputed
  obtain ⟨c, hc, hcomputed⟩ := (Option.any_eq_true _ _).mp hcomputed
  rw [Bool.and_eq_true, decide_eq_true_eq] at hcomputed
  obtain ⟨⟨hkind, htype, hname⟩, hcomputed⟩ := hcomputed
  obtain ⟨⟨mocked, a⟩, hmocked, hcomputed⟩ := (Option.any_eq_true _ _).mp hcomputed
  obtain ⟨field, hfield, hcomputed⟩ := (Option.any_eq_true _ _).mp hcomputed
  obtain ⟨hS, hmode, hfieldKind, hfieldType, hfieldName, hinitializer, hmarker⟩ := decide_eq_true_eq.mp hcomputed
  obtain rfl : mocked = "S" := hS
  have hread : FieldAt g "S" "s" (.mock a) field :=
    ⟨⟨61, hfield⟩, hfieldKind, hfieldType, hfieldName, hinitializer, hmarker⟩
  have hplan := eq_ok_of_toOption hplan
  have hmocked := eq_ok_of_toOption hmocked
  obtain ⟨c', body, type, created, hc', -, hcreated, -, hback⟩ := creation_kept_in_field before (.caret 52) plan hplan
  obtain rfl := Option.some.inj (hc.symm.trans hc')
  cases created with
  | spy given => cases hkind.symm.trans hcreated.1
  | mock b =>
    obtain ⟨rfl, rfl⟩ := Prod.mk.inj (Except.ok.inj (hmocked.symm.trans hcreated.2.1))
    rw [htype, hname] at hback
    exact ⟨plan, c, a, field, hplan, eq_ok_of_toOption hpreview, hcreated, hread, hback after field hread⟩

/-- A variable keeps its type, so a mock of another type becomes one of the type of the variable. -/
theorem mock_of_other_type_not_kept :
    let before := "import org.mockito.*;class A\x7bvoid t()\x7bS s=Mockito.mock(I.class);\x7d\x7d"
    let moved := "import org.mockito.*;class A\x7b\n    @Mock\n    S s;\nvoid t()\x7b\x7d\x7d"
    let back := "import org.mockito.*;class A\x7b\nvoid t()\x7b\n    S s = Mockito.mock(S.class);\x7d\x7d"
    ∃ plan plan' c, planToField (File.read before) (.caret 50) = .ok plan ∧ plan.preview before = .ok moved ∧
      creationCall? (File.read before) (.caret 50) = some c ∧
      ofMockCall (File.read before) c.place.node = .ok ("I", {}) ∧
      planToCall (File.read moved) (.caret 44) "t" = .ok plan' ∧ plan'.preview moved = .ok back := by
  intro before moved back
  have hcomputed : (planToField (File.read before) (.caret 50)).toOption.any (fun plan =>
      (plan.preview before).toOption == some moved && (creationCall? (File.read before) (.caret 50)).any fun c =>
        (ofMockCall (File.read before) c.place.node).toOption == some ("I", {}) &&
        (planToCall (File.read moved) (.caret 44) "t").toOption.any fun plan' =>
          (plan'.preview moved).toOption == some back) = true := by
    decide +kernel
  obtain ⟨plan, hplan, hcomputed⟩ := (Option.any_eq_true _ _).mp hcomputed
  rw [Bool.and_eq_true, beq_iff_eq] at hcomputed
  obtain ⟨c, hc, hmocked⟩ := (Option.any_eq_true _ _).mp hcomputed.2
  rw [Bool.and_eq_true, beq_iff_eq] at hmocked
  obtain ⟨plan', hplan', hback⟩ := (Option.any_eq_true _ _).mp hmocked.2
  exact ⟨plan, plan', c, eq_ok_of_toOption hplan, eq_ok_of_toOption hcomputed.1, hc, eq_ok_of_toOption hmocked.1,
    eq_ok_of_toOption hplan', eq_ok_of_toOption (beq_iff_eq.mp hback)⟩

end MockDialect.Creation
