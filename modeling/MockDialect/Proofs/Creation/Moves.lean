import MockDialect.Creation.Expand
import MockDialect.Creation.ToCall
import MockDialect.Creation.ToField
import MockDialect.Proofs.Conversion.Applicable
import MockDialect.Proofs.Creation.Widening

namespace MockDialect.Creation

open Chain Conversion Edit Java Settings Source Text

variable {f : File}

/-- A range that some content of a file gives up. -/
def GivesUp (f : File) (n : Node) (r : Span) : Prop :=
  f.tree.Within n ∧ isContent n = true ∧ Widens f.text n.span r

theorem GivesUp.apart_imports (hf : f.Regular) {n : Node} {r : Span} (h : GivesUp f n r) :
    Apart r (.point f.imports.place) := by
  obtain ⟨hn, hcontent, hw⟩ := h
  rcases hf.place_cases with hzero | ⟨semicolon, hplace, hchar, hclear⟩
  · rw [hzero]
    exact .inr (Nat.zero_le _)
  · rw [hplace]
    rcases hclear n hn hcontent with h | h
    · exact .inr (hw.front semicolon ';' hchar (by decide) h)
    · exact .inl (Nat.le_succ_of_le (hw.back semicolon ';' hchar (by decide) h))

theorem applicable_move (hf : f.Regular) {n : Node} {removal insertion : Edit} {offset : Nat}
    (h : GivesUp f n removal.span) (hspan : insertion.span = .point offset)
    (hcut : isBoundary f.text offset = true) (hapart : Apart removal.span (.point offset)) (imports : List String)
    (summary : String) :
    Applicable f (planOf f.revision ([removal, insertion] ++ (planImports f.imports imports).toList) summary) := by
  have hordered := (h.1.placed hf.placed).wellFormed.ordered
  refine applicable_planOf hf (compatible_withImports hf ⟨fun e he => ?_, ?_⟩ (fun e he => ?_) imports) summary
  · rcases List.mem_cons.mp he with rfl | he
    · exact ⟨h.2.2.ordered hordered, h.2.2.cuts⟩
    · rw [List.mem_singleton.mp he]
      exact fits_of_point hspan hcut
  · rw [List.pairwise_pair, hspan]
    exact hapart
  · rcases List.mem_cons.mp he with rfl | he
    · exact h.apart_imports hf
    · rw [List.mem_singleton.mp he]
      exact apart_points _ hspan

theorem orSetting_ne {α : Type} (x : Except SettingError α) (error : EditError) :
    orSetting x ≠ .error (.edit error) := by
  cases x <;> simp [orSetting]

theorem bind_ne_edit {α β : Type} {x : Except Failure α} {k : α → Except Failure β} {error : EditError}
    (hx : x ≠ .error (.edit error)) (hk : ∀ a, k a ≠ .error (.edit error)) : x >>= k ≠ .error (.edit error) := by
  cases x with
  | error failure => exact fun h => hx (Except.error.inj h ▸ rfl)
  | ok a => exact hk a

theorem isContent_ne_token {n : Node} (h : isContent n = true) : n.kind ≠ .token := by
  intro hkind
  simp [isContent, hkind] at h

theorem creationCallOf?_eq {place : Cursor} {c : CreationCall} (h : creationCallOf? f place = some c) :
    c.place = place ∧ readCall? f place.node = some c.call := by
  unfold creationCallOf? at h
  split at h
  case h_1 => cases h
  case h_2 call hcall =>
    split at h
    case h_2 => cases h
    case h_1 =>
      split at h
      case isFalse => cases h
      case isTrue =>
        obtain rfl := Option.some.inj h
        exact ⟨rfl, hcall⟩

theorem creationCall?_in {selection : Selection} {c : CreationCall} (h : creationCall? f selection = some c) :
    Cursor.In f.tree c.place ∧ c.place.node.isCall = true ∧ readCall? f c.place.node = some c.call := by
  have hplace : ∃ place, Cursor.In f.tree place ∧ creationCallOf? f place = some c := by
    cases selection with
    | caret offset =>
      obtain ⟨place, hplace, hread⟩ := List.exists_of_findSome?_eq_some h
      exact ⟨place, (mem_callsAround (placeAt_in f offset) hplace).1, hread⟩
    | range span =>
      obtain ⟨place, hplace, hread⟩ := List.exists_of_findSome?_eq_some h
      exact ⟨place, Cursor.in_of_mem_all (List.mem_filter.mp hplace).1, hread⟩
  obtain ⟨place, hin, hread⟩ := hplace
  obtain ⟨rfl, hcall⟩ := creationCallOf?_eq hread
  exact ⟨hin, (readCall?_eq hcall).1, hcall⟩

theorem enclosing?_parent {c d : Cursor} {k : Kind} (h : c.parent? = some d) (hk : c.kind ≠ k) :
    c.enclosing? k = d.enclosing? k := by
  obtain ⟨n, above⟩ := c
  cases above with
  | nil => cases h
  | cons m above =>
    obtain rfl := Option.some.inj h
    rw [Cursor.enclosing?, Cursor.nearest?, Cursor.outward, List.find?_cons_of_neg (by simpa using hk)]
    rfl

theorem localVariable?_spec {value body : Cursor} {v : LocalVariable} (hvalue : Cursor.In f.tree value)
    (hcall : value.node.isCall = true) (hbody : value.enclosing? .classBody = some body)
    (h : localVariable? f value = some v) :
    ∃ n, n.kind = .localVariableDeclaration ∧ n.span = v.span ∧ body.node.Within n := by
  unfold localVariable? at h
  obtain ⟨declarator, hdeclarator, h⟩ := Option.bind_eq_some_iff.mp h
  obtain ⟨statement, hstatement, h⟩ := Option.bind_eq_some_iff.mp h
  split at h
  case isFalse => cases h
  case isTrue hkinds =>
    simp only [Bool.and_eq_true, beq_iff_eq] at hkinds
    obtain ⟨⟨⟨hdeclaratorKind, -⟩, hstatementKind⟩, -⟩ := hkinds
    obtain ⟨name, -, h⟩ := Option.bind_eq_some_iff.mp h
    obtain ⟨type, -, h⟩ := Option.bind_eq_some_iff.mp h
    obtain rfl := Option.some.inj h
    have hkind : value.kind = .methodInvocation := beq_iff_eq.mp hcall
    rw [enclosing?_parent hdeclarator (by rw [hkind]; decide),
      enclosing?_parent hstatement (by rw [hdeclaratorKind]; decide)] at hbody
    have hin := ((hvalue.parent hdeclarator).1.parent hstatement).1
    exact ⟨statement.node, hstatementKind, rfl, (hin.nearest hbody).2.2⟩

theorem fieldFor_spec (hf : f.Regular) {c : CreationCall} {body : Cursor} {shape : FieldShape} {type name : String}
    {removal : Edit} (hplace : Cursor.In f.tree c.place) (hcall : c.place.node.isCall = true)
    (hbody : c.place.enclosing? .classBody = some body)
    (h : fieldFor f body.node c shape = .ok (type, name, removal)) :
    ∃ n, body.node.Within n ∧ GivesUp f n removal.span ∧ n.kind ≠ .classBody := by
  obtain ⟨hin, -, hwithin⟩ := hplace.nearest hbody
  unfold fieldFor at h
  split at h
  case h_1 v hv =>
    split at h
    case isTrue => cases h
    case isFalse =>
      simp only [Except.ok.injEq, Prod.mk.injEq] at h
      obtain ⟨-, -, rfl⟩ := h
      obtain ⟨n, hkind, hspan, hn⟩ := localVariable?_spec hplace hcall hbody hv
      have htree := hin.within.trans hn
      refine ⟨n, hn, ⟨htree, by simp [isContent, hkind], ?_⟩, by simp [hkind]⟩
      rw [← hspan]
      exact wholeLines_widens (htree.placed hf.placed).cuts.self
  case h_2 =>
    simp only [Except.ok.injEq, Prod.mk.injEq] at h
    obtain ⟨-, -, rfl⟩ := h
    have hkind : c.place.node.kind = .methodInvocation := beq_iff_eq.mp hcall
    exact ⟨c.place.node, hwithin,
      ⟨hplace.within, isContent_of_isCall hcall, .refl (hplace.placed hf.placed).cuts.self⟩, by simp [hkind]⟩

theorem fieldShape_ne (c : CreationCall) (error : EditError) : fieldShape f c ≠ .error (.edit error) := by
  unfold fieldShape
  split
  case h_1 =>
    refine bind_ne_edit (orSetting_ne _ error) fun ⟨type, attributes⟩ => ?_
    exact bind_ne_edit (orSetting_ne _ error) fun _ => nofun
  case h_2 =>
    unfold spiedShape
    split
    case h_1 => split <;> nofun
    case h_2 => nofun

theorem fieldFor_ne (body : Node) (c : CreationCall) (shape : FieldShape) (error : EditError) :
    fieldFor f body c shape ≠ .error (.edit error) := by
  unfold fieldFor
  split
  case h_1 => split <;> nofun
  case h_2 => nofun

theorem applicable_planToField (hf : f.Regular) (selection : Selection) :
    Applicable f (planToField f selection) := by
  unfold planToField
  split
  case h_2 => exact applicable_error nofun
  case h_1 c hc =>
    obtain ⟨hplace, hcall, -⟩ := creationCall?_in hc
    split
    case h_2 => exact applicable_error nofun
    case h_1 body hbody =>
      refine applicable_bind (fieldShape_ne c) fun shape _ => ?_
      refine applicable_bind (fieldFor_ne body.node c shape) fun ⟨type, name, removal⟩ hfield => ?_
      obtain ⟨n, hn, hgives, hne⟩ := fieldFor_spec hf hplace hcall hbody hfield
      obtain ⟨hin, hkind, -⟩ := hplace.nearest hbody
      have hbodyKind : body.node.kind = .classBody := beq_iff_eq.mp hkind
      have hisBody : body.node.kind = .classBody ∨ body.node.kind = .block := .inl hbodyKind
      have hplaced := hin.placed hf.placed
      have hregular := hin.all hf.nodes
      obtain ⟨offset, hspan, hhead⟩ := insertLines_head hplaced hregular.self hisBody _ "\n" "\n"
      -- what is given up is a member of the body or below one, so the field goes in front of it
      refine applicable_move hf hgives hspan hhead.cut (.inr ?_) _ _
      refine hhead.le_start hgives.2.2 (hhead.le_of_within hplaced hregular hisBody hn (hbodyKind ▸ hne) ?_)
      exact isContent_ne_token hgives.2.1

theorem creationOf_ne (field : MockField) (error : EditError) : creationOf f field ≠ .error (.edit error) := by
  unfold creationOf
  split
  case h_1 => exact bind_ne_edit (orSetting_ne _ error) fun _ => nofun
  case h_2 => nofun

theorem mockField?_in {offset : Nat} {field : MockField} (h : mockField? f offset = some field) :
    Cursor.In f.tree field.place ∧ field.place.node.kind = .fieldDeclaration ∧
      creationMarker? f field.place.node = some (field.marker, field.kind) := by
  unfold mockField? at h
  obtain ⟨place, hplace, h⟩ := Option.bind_eq_some_iff.mp h
  obtain ⟨⟨marker, kind⟩, hmarker, h⟩ := Option.bind_eq_some_iff.mp h
  dsimp only at h
  split at h
  case h_2 => cases h
  case h_1 declarator _ =>
    obtain ⟨name, -, h⟩ := Option.bind_eq_some_iff.mp h
    obtain ⟨type, -, h⟩ := Option.bind_eq_some_iff.mp h
    obtain rfl := Option.some.inj h
    obtain ⟨hin, hkind, -⟩ := (placeAt_in f offset).nearest hplace
    exact ⟨hin, beq_iff_eq.mp hkind, hmarker⟩

theorem methodBody?_spec (hf : f.Regular) {field : Cursor} {method : String} {block : Node}
    (hfield : Cursor.In f.tree field) (hkind : field.node.kind = .fieldDeclaration)
    (h : methodBody? f field method = some block) : f.tree.Within block ∧ block.kind = .block ∧
      (block.span.stop ≤ field.span.start ∨ field.span.stop ≤ block.span.start) := by
  unfold methodBody? at h
  obtain ⟨body, hbody, h⟩ := Option.bind_eq_some_iff.mp h
  obtain ⟨found, hfound, hblock⟩ := Option.bind_eq_some_iff.mp h
  obtain ⟨hin, -, hmem⟩ := hfield.parent hbody
  have hfoundMem : found ∈ body.node.children :=
    (List.mem_filter.mp (List.mem_filter.mp (List.mem_of_find?_eq_some hfound)).1).1
  have hfoundKind := List.find?_some hfound
  simp only [Bool.and_eq_true, beq_iff_eq] at hfoundKind
  have hblockMem := Node.mem_children_of_child? hblock
  have hplaced := hin.placed hf.placed
  have hrole : block.role = some .body := by simpa using List.find?_some hblock
  have hne : found ≠ field.node := by
    rintro rfl
    rw [hkind] at hfoundKind
    cases hfoundKind.1
  have hinside := (hplaced.laid.of_mem hfoundMem).2.2.laid.of_mem hblockMem
  refine ⟨(hin.within.child hfoundMem).child hblockMem, ?_, ?_⟩
  · exact ((hin.all hf.nodes).child hfoundMem).self.bodied hfoundKind.1 block hblockMem hrole
  · exact (hplaced.apart hfoundMem hmem hne).imp (Nat.le_trans hinside.2.1) (Nat.le_trans · hinside.1)

theorem applicable_planToCall (hf : f.Regular) (selection : Selection) (method : String) :
    Applicable f (planToCall f selection method) := by
  unfold planToCall
  split
  case h_2 => exact applicable_error nofun
  case h_1 field hfield =>
    obtain ⟨hplace, hkind, -⟩ := mockField?_in hfield
    refine applicable_bind (creationOf_ne field) fun ⟨creation, imports⟩ _ => ?_
    dsimp only
    split
    case h_2 => exact applicable_error nofun
    case h_1 block hblock =>
      obtain ⟨hwithin, hblockKind, hbeside⟩ := methodBody?_spec hf hplace hkind hblock
      have hgives : GivesUp f field.place.node
          (withBlankLineAfter f.text (wholeLines f.text field.place.node.span)) :=
        ⟨hplace.within, by simp [isContent, hkind],
          withBlankLineAfter_widens (wholeLines_widens (hplace.placed hf.placed).cuts.self)⟩
      have hisBody : block.kind = .classBody ∨ block.kind = .block := .inr hblockKind
      have hregular := (hwithin.all hf.nodes).self
      obtain ⟨offset, hspan, hhead⟩ := insertLines_head (hwithin.placed hf.placed) hregular hisBody _ "" ""
      refine applicable_move hf hgives hspan hhead.cut ?_ _ _
      rcases hbeside with h | h
      · exact .inr (hhead.le_start hgives.2.2 (Nat.le_trans hhead.inside h))
      · exact .inl (hhead.stop_le hgives.2.2 h)

theorem expandCall?_spec (hf : f.Regular) {c : CreationCall} {e : Edit} (hplace : Cursor.In f.tree c.place)
    (hcall : readCall? f c.place.node = some c.call) (h : expandCall? f c = some e) :
    e.FitsIn f.text c.place.node.span := by
  have hplaced := readCall?_placed (hplace.placed hf.placed) hcall
  have hspan : c.call.span = c.place.node.span := by
    obtain ⟨-, _, _, -, -, -, hspan, -⟩ := readCall?_eq hcall
    exact hspan
  unfold expandCall? at h
  split at h
  case h_1 mocked second _ hargs =>
    split at h
    case isFalse => cases h
    case isTrue =>
      obtain rfl := Option.some.inj h
      obtain ⟨hordered, hcuts, hstart, hstop⟩ := hplaced.args second (by rw [hargs]; simp)
      have harguments := hplaced.arguments
      rw [hspan] at harguments
      exact ⟨⟨hordered, hcuts⟩, Nat.le_trans harguments.1 hstart, Nat.le_trans hstop harguments.2⟩
  case h_2 =>
    obtain ⟨type, -, rfl⟩ := Option.map_eq_some_iff.mp h
    exact ⟨⟨hplaced.ordered, hplaced.cuts⟩, hspan ▸ Nat.le_refl c.call.span.start,
      hspan ▸ Nat.le_refl c.call.span.stop⟩
  case h_3 => cases h

theorem applicable_planExpand (hf : f.Regular) (selection : Selection) :
    Applicable f (planExpand f selection) := by
  unfold planExpand
  split
  case h_2 => exact applicable_error nofun
  case h_1 c hc =>
    obtain ⟨hplace, hcall, hread⟩ := creationCall?_in hc
    split
    case h_2 => exact applicable_error nofun
    case h_1 edit hedit =>
      have hin := expandCall?_spec hf hplace hread hedit
      refine applicable_planOf hf (compatible_withImports hf hin.compatible (fun e he => ?_) _) _
      rw [List.mem_singleton.mp he]
      exact apart_imports hf hplace.within (isContent_of_isCall hcall) ⟨hin.starts, hin.stops⟩

end MockDialect.Creation
