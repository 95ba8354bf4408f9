import MockDialect.Proofs.Chain.Arguments
import MockDialect.Proofs.Conversion.Outcome
import MockDialect.Proofs.Java.Creations
import MockDialect.Proofs.Text.Trimming

namespace MockDialect.Stubbing

/-- The change that takes another one back. -/
def ThrowForm.other : ThrowForm → ThrowForm
  | keep => keep
  | toClasses => toInstances
  | toInstances => toClasses

end MockDialect.Stubbing

namespace MockDialect.Conversion

open Chain Edit Java Source Text
open Stubbing (ThrowForm isPlainInstance)

variable {d : Stubbing.Dialect} {call again : Call} {f f' : File} {m m' list list' : Node}

/-- A text without its white space. -/
def squeezed (text : String) : List Char := text.toList.filter (!Lexeme.isSeparator ·)

/-- An argument that is a type and `.class`, or `new`, a type and two parentheses, if it is of one of these forms. -/
def isExact (f : File) (m : Node) : Bool :=
  match m.kind with
  | .objectCreation => m.isBare
  | .classLiteral => squeezed (f.spell m) == squeezed (classLiteralType (f.spell m)) ++ ".class".toList
  | _ => true

/-- A throwing setter that is read in a file, and its list of arguments. -/
structure ThrowAt (d : Stubbing.Dialect) (f : File) (call : Call) (list : Node) : Prop where
  place : ∃ c, Cursor.In f.tree c ∧ readCall? f c.node = some call ∧ c.node.child? .arguments = some list
  throws : d.isThrow call = true

/-- What holds of the nodes of a file. -/
structure Regular (f : File) (m : Node) : Prop where
  packed : m.All (Node.Packed f.text)
  origin : m.All (Node.Origin f.text)
  formed : m.All (Node.Formed f.text)
  cut : isBoundary f.text m.span.start = true

theorem squeezed_append (a b : String) : squeezed (a ++ b) = squeezed a ++ squeezed b := by
  rw [squeezed, String.toList_append, List.filter_append]
  rfl

theorem isBlank_of_isSeparator {c : Char} (h : Lexeme.isSeparator c = true) : isBlank c = true := by
  simp only [Lexeme.isSeparator, isBlank, Bool.or_eq_true, Bool.and_eq_true, decide_eq_true_eq, beq_iff_eq] at h ⊢
  rcases h with h | rfl
  · simp [h]
  · simp

theorem classLiteralType_eq {text : String} {front : List Char} (h : text.toList = front ++ "class".toList) :
    (classLiteralType text).toList =
      ((((front.dropWhile isBlank).reverse.dropWhile isBlank).dropWhile (· == '.')).dropWhile isBlank).reverse := by
  have hlead : (front ++ "class".toList).dropWhile isBlank = front.dropWhile isBlank ++ "class".toList := by
    rw [List.dropWhile_append]
    split
    · next hnil =>
      rw [List.isEmpty_iff.mp hnil]
      decide
    · rfl
  have hdrop (ys : List Char) : dropLead? "class".toList.reverse (ys ++ "class".toList).reverse = some ys.reverse := by
    rw [List.reverse_append]
    rfl
  rw [classLiteralType, h, trimChars, hlead, dropBlankEnd_append (by decide) (by decide), hdrop, String.toList_ofList]

theorem squeezed_classLiteralType {text : String} {front cs : List Char} (h : text.toList = front ++ "class".toList)
    (hdot : squeezed text = cs ++ ".class".toList) : squeezed (classLiteralType text) <:+: cs := by
  have hfront : front.filter (!Lexeme.isSeparator ·) = cs ++ ['.'] := by
    rw [squeezed, h, List.filter_append] at hdot
    exact (List.append_left_inj "class".toList).mp (hdot.trans (by simp))
  obtain ⟨before, more, rfl, rfl, hmore⟩ := List.filter_eq_append_iff.mp hfront
  obtain ⟨blanks, rest, rfl, hblanks, -, hrest⟩ := List.filter_eq_cons_iff.mp hmore
  have hrest' : ∀ c ∈ rest.reverse, isBlank c = true := by
    intro c hc
    have hseparator := List.filter_eq_nil_iff.mp hrest c (List.mem_reverse.mp hc)
    exact isBlank_of_isSeparator (by simpa using hseparator)
  -- from the end: white space, the dot, and then what is left of the part in front of it
  have hlead : (before ++ (blanks ++ '.' :: rest)).dropWhile isBlank =
      (before ++ blanks).dropWhile isBlank ++ '.' :: rest := by
    rw [← List.append_assoc, List.dropWhile_append]
    split
    · next hnil =>
      rw [List.isEmpty_iff.mp hnil]
      rfl
    · rfl
  have hend : ((before ++ (blanks ++ '.' :: rest)).dropWhile isBlank).reverse.dropWhile isBlank =
      '.' :: ((before ++ blanks).dropWhile isBlank).reverse := by
    rw [hlead, List.reverse_append, List.reverse_cons, List.append_assoc, List.dropWhile_append_of_pos hrest']
    rfl
  have htype : (classLiteralType text).toList <:+: before ++ blanks := by
    rw [classLiteralType_eq h, hend, List.dropWhile_cons_of_pos rfl]
    have hsuffix := (List.dropWhile_suffix isBlank).trans
      (List.dropWhile_suffix (· == '.') (l := ((before ++ blanks).dropWhile isBlank).reverse))
    have hpart := List.reverse_prefix.mpr hsuffix
    rw [List.reverse_reverse] at hpart
    exact hpart.isInfix.trans (List.dropWhile_suffix isBlank).isInfix
  have hblanks' : blanks.filter (!Lexeme.isSeparator ·) = [] := List.filter_eq_nil_iff.mpr hblanks
  have hcs := htype.filter (!Lexeme.isSeparator ·)
  rwa [List.filter_append, hblanks', List.append_nil] at hcs

theorem throwAt_of_callAt? {offset : Nat} {c : Cursor} (hc : f.callAt? offset = some c)
    (hread : readCall? f c.node = some call) (hlist : c.node.child? .arguments = some list)
    (hthrow : d.isThrow call = true) : ThrowAt d f call list :=
  ⟨⟨c, (Cursor.In.nearest (.innermost .root) hc).1, hread, hlist⟩, hthrow⟩

theorem ThrowAt.regular {source : String} (h : ThrowAt d (File.read source) call list) :
    call.args = list.codeChildren.map (readArg (File.read source)) ∧
      ∀ m ∈ list.codeChildren, Regular (File.read source) m := by
  obtain ⟨c, hc, hread, hlist⟩ := h.place
  have hkind : c.kind ≠ .program := by
    have hcall : c.isCall = true := (readCall?_eq hread).1
    intro hprogram
    rw [Cursor.isCall, Node.isCall, show c.node.kind = .program from hprogram] at hcall
    cases hcall
  have hmem : list ∈ c.node.children := List.mem_of_find?_eq_some hlist
  have hpacked := (File.read_packed source hc hkind).child hmem
  refine ⟨args_of_readCall? hread hlist, fun m hm => ?_⟩
  have hchild := mem_children_of_mem_codeChildren hm
  exact {
    packed := hpacked.child hchild
    origin := ((File.read_origin source hc hkind).child hmem).child hchild
    formed := ((hc.all (File.read_sound source).formed).child hmem).child hchild
    cut := ((hpacked.self (List.ne_nil_of_mem hchild)).of_mem hchild).cuts.1 }

def createdType (f : File) (m : Node) : String := ((m.child? .type).map f.spell).getD ""

theorem kind_readArg_cases (f : File) (m : Node) :
    m.kind = .classLiteral ∧ (readArg f m).kind = .classLiteral (classLiteralType (f.spell m)) ∨
      (∃ hasArguments, m.kind = .objectCreation ∧ (readArg f m).kind = .newInstance (createdType f m) hasArguments) ∨
      (readArg f m).isClassLiteral = false ∧ isPlainInstance (readArg f m) = false := by
  by_cases hcall : m.isCall = true
  · refine .inr (.inr ?_)
    obtain ⟨kind, role, span, children⟩ := m
    have hkind : (kind == .methodInvocation) = true := hcall
    rw [Arg.isClassLiteral, isPlainInstance, readArg]
    dsimp only
    rw [if_pos hkind]
    cases callFrom? f (.mk kind role span children) (readArgsAmong f children) <;> exact ⟨rfl, rfl⟩
  · rw [Arg.isClassLiteral, isPlainInstance, kind_readArg (Bool.eq_false_iff.mpr hcall), plainKind]
    split
    case h_3 hkind => exact .inl ⟨hkind, rfl⟩
    case h_4 hkind => exact .inr (.inl ⟨_, hkind, rfl⟩)
    all_goals exact .inr (.inr ⟨rfl, rfl⟩)

theorem readArg_literal (h : (readArg f m).isClassLiteral = true) : m.kind = .classLiteral ∧
    ThrowForm.toInstances.convert (readArg f m) = "new " ++ classLiteralType (f.spell m) ++ "()" := by
  rcases kind_readArg_cases f m with ⟨hkind, hread⟩ | ⟨_, -, hread⟩ | ⟨hno, -⟩
  · exact ⟨hkind, by simp only [ThrowForm.convert, hread]⟩
  · rw [Arg.isClassLiteral, hread] at h
    cases h
  · cases hno.symm.trans h

theorem readArg_creation (h : isPlainInstance (readArg f m) = true) : m.kind = .objectCreation ∧
    ThrowForm.toClasses.convert (readArg f m) = createdType f m ++ ".class" := by
  rcases kind_readArg_cases f m with ⟨-, hread⟩ | ⟨_, hkind, hread⟩ | ⟨-, hno⟩
  · rw [isPlainInstance, hread] at h
    cases h
  · exact ⟨hkind, by simp only [ThrowForm.convert, hread]⟩
  · cases hno.symm.trans h

theorem Regular.literal (h : Regular f m) (hkind : m.kind = .classLiteral) :
    ∃ front, (f.spell m).toList = front ++ "class".toList :=
  (h.origin.self.literal hkind).slice h.packed.self

theorem Regular.creation (h : Regular f m) (hkind : m.kind = .objectCreation) :
    5 + (squeezed (createdType f m)).length ≤ (squeezed (f.spell m)).length ∧
      (m.isBare = true → squeezed (f.spell m) = squeezed ("new " ++ createdType f m ++ "()")) ∧
      ((squeezed (f.spell m)).length = 5 + (squeezed (createdType f m)).length → m.isBare = true) := by
  have htype : squeezed (createdType f m) =
      ((m.child? .type).map fun type => spelled f.text type.span).getD [] := by
    rw [createdType]
    cases m.child? .type <;> rfl
  rw [squeezed_append, squeezed_append, htype]
  exact spelled_creation h.packed h.origin h.formed h.cut hkind

theorem squeezed_instance (type : String) :
    squeezed ("new " ++ type ++ "()") = "new".toList ++ squeezed type ++ "()".toList := by
  rw [squeezed_append, squeezed_append]
  rfl

theorem squeezed_class (type : String) : squeezed (type ++ ".class") = squeezed type ++ ".class".toList :=
  squeezed_append type ".class"

theorem restored_literal (hm : Regular f m) (hm' : Regular f' m') (hread : (readArg f m).isClassLiteral = true)
    (hread' : isPlainInstance (readArg f' m') = true)
    (hspell : f'.spell m' = ThrowForm.toInstances.convert (readArg f m)) :
    squeezed (ThrowForm.toClasses.convert (readArg f' m')) = squeezed (f.spell m) ↔
      isExact f m = true ∧ isExact f' m' = true := by
  obtain ⟨hkind, hconvert⟩ := readArg_literal hread
  obtain ⟨hkind', hconvert'⟩ := readArg_creation hread'
  obtain ⟨front, hfront⟩ := hm.literal hkind
  obtain ⟨hle, hbare, hlength⟩ := hm'.creation hkind'
  rw [hconvert] at hspell
  rw [hspell, squeezed_instance] at hle hbare hlength
  simp only [List.length_append, show "new".toList.length = 3 from rfl, show "()".toList.length = 2 from rfl]
    at hle hlength
  rw [hconvert', squeezed_class, isExact, isExact, hkind, hkind', beq_iff_eq]
  constructor
  · intro h
    have hpart := squeezed_classLiteralType hfront h.symm
    have hle' := hpart.length_le
    have heq := hpart.eq_of_length (by omega)
    exact ⟨by rw [← h, heq], hlength (by omega)⟩
  · rintro ⟨hexact, hexact'⟩
    have htype := hbare hexact'
    rw [squeezed_instance, List.append_left_inj, List.append_right_inj] at htype
    rw [hexact, htype]

theorem restored_creation (hm : Regular f m) (hm' : Regular f' m') (hread : isPlainInstance (readArg f m) = true)
    (hread' : (readArg f' m').isClassLiteral = true)
    (hspell : f'.spell m' = ThrowForm.toClasses.convert (readArg f m)) :
    squeezed (ThrowForm.toInstances.convert (readArg f' m')) = squeezed (f.spell m) ↔
      isExact f m = true ∧ isExact f' m' = true := by
  obtain ⟨hkind, hconvert⟩ := readArg_creation hread
  obtain ⟨hkind', hconvert'⟩ := readArg_literal hread'
  obtain ⟨front, hfront⟩ := hm'.literal hkind'
  obtain ⟨hle, hbare, hlength⟩ := hm.creation hkind
  rw [hconvert] at hspell
  have hpart := squeezed_classLiteralType hfront (hspell ▸ squeezed_class (createdType f m))
  rw [hconvert', isExact, isExact, hkind, hkind', beq_iff_eq, show squeezed (f'.spell m') = _ from
    hspell ▸ squeezed_class (createdType f m), List.append_left_inj, squeezed_instance]
  rw [squeezed_instance] at hbare
  constructor
  · intro h
    have hcount := congrArg List.length h
    simp only [List.length_append, show "new".toList.length = 3 from rfl, show "()".toList.length = 2 from rfl]
      at hcount
    have hle' := hpart.length_le
    exact ⟨hlength (by omega), (hpart.eq_of_length (by omega)).symm⟩
  · rintro ⟨hexact, hexact'⟩
    rw [hbare hexact, hexact']

inductive Thrown (call : Call) : Option ThrowForm → Prop where
  | literals (all : ∀ a ∈ call.args, a.isClassLiteral = true) : Thrown call (some .toInstances)
  | creations (all : ∀ a ∈ call.args, isPlainInstance a = true) : Thrown call (some .toClasses)
  | neither (literal : ¬ ∀ a ∈ call.args, a.isClassLiteral = true)
      (creation : ¬ ∀ a ∈ call.args, isPlainInstance a = true) : Thrown call none

theorem thrown_throwToggle? (h : d.isThrow call = true) : Thrown call (d.throwToggle? call) := by
  rw [Stubbing.Dialect.throwToggle?, h, if_neg (by decide)]
  split
  case isTrue hclasses => exact .literals (List.all_eq_true.mp hclasses)
  case isFalse hclasses =>
    split
    case isTrue hinstances => exact .creations (List.all_eq_true.mp hinstances)
    case isFalse hinstances => exact .neither (mt List.all_eq_true.mpr hclasses) (mt List.all_eq_true.mpr hinstances)

theorem map_eq_map_iff {α β γ δ : Type} {xs : List α} {ys : List β} {a : β → γ} {b : α → γ} {c : β → δ} {e : α → δ}
    {P : α → Prop} {Q : β → Prop} (hmap : ys.map a = xs.map b)
    (hiff : ∀ x ∈ xs, ∀ y ∈ ys, a y = b x → (c y = e x ↔ P x ∧ Q y)) :
    ys.map c = xs.map e ↔ (∀ x ∈ xs, P x) ∧ ∀ y ∈ ys, Q y := by
  induction xs generalizing ys with
  | nil =>
    obtain rfl := List.map_eq_nil_iff.mp hmap
    simp
  | cons x xs ih =>
    obtain ⟨y, ys, rfl, hhead, htail⟩ := List.map_eq_cons_iff.mp hmap
    have hrest := ih htail fun x hx y hy => hiff x (.tail _ hx) y (.tail _ hy)
    rw [List.map_cons, List.map_cons, List.cons.injEq, hiff x (.head _) y (.head _) hhead, hrest, List.forall_mem_cons,
      List.forall_mem_cons]
    exact and_and_and_comm

theorem append_ne_append {xs ys as bs : List Char} {a b : Char} (has : as.getLast? = some a)
    (hbs : bs.getLast? = some b) (hne : a ≠ b) : xs ++ as ≠ ys ++ bs := by
  intro h
  have hlast := congrArg List.getLast? h
  rw [List.getLast?_append, List.getLast?_append, has, hbs] at hlast
  exact hne (Option.some.inj hlast)

theorem exists_mem_args (h : d.isThrow call = true) : ∃ a, a ∈ call.args := by
  simp only [Stubbing.Dialect.isThrow, Bool.and_eq_true, Bool.not_eq_true', List.isEmpty_eq_false_iff] at h
  exact List.exists_mem_of_ne_nil _ h.1.2

theorem ThrowAt.other {source source' : String} {form form' : ThrowForm} (h : ThrowAt d (File.read source) call list)
    (h' : ThrowAt d (File.read source') again list') (hform : d.throwToggle? call = some form)
    (hform' : d.throwToggle? again = some form') (htexts : again.args.map (·.text) = call.args.map form.convert) :
    form' = form.other := by
  obtain ⟨hargs, -⟩ := h.regular
  obtain ⟨hargs', hregular'⟩ := h'.regular
  have hthrown := hform ▸ thrown_throwToggle? h.throws
  have hthrown' := hform' ▸ thrown_throwToggle? h'.throws
  obtain ⟨b, hb⟩ := exists_mem_args h'.throws
  obtain ⟨a, ha, htext⟩ := List.mem_map.mp (htexts ▸ List.mem_map_of_mem hb)
  obtain ⟨m, -, rfl⟩ := List.mem_map.mp (hargs ▸ ha)
  obtain ⟨m', hm', rfl⟩ := List.mem_map.mp (hargs' ▸ hb)
  rw [text_readArg] at htext
  cases hthrown with
  | literals all =>
    cases hthrown' with
    | creations => rfl
    | literals all' =>
      obtain ⟨front, hfront⟩ := (hregular' m' hm').literal (readArg_literal (all' _ hb)).1
      rw [← htext, (readArg_literal (all _ ha)).2, String.toList_append] at hfront
      exact absurd hfront (append_ne_append rfl rfl (by decide))
  | creations all =>
    cases hthrown' with
    | literals => rfl
    | creations all' =>
      have hm := hregular' m' hm'
      obtain ⟨front, bracket, hfront, hbracket⟩ :=
        ends_creation hm.packed hm.origin.self (readArg_creation (all' _ hb)).1
      rw [show slice _ m'.span = (File.read source').spell m' from rfl, ← htext, (readArg_creation (all _ ha)).2,
        String.toList_append] at hfront
      rcases hbracket with rfl | rfl
      · exact absurd hfront (append_ne_append rfl rfl (by decide))
      · exact absurd hfront (append_ne_append rfl rfl (by decide))

theorem ThrowAt.restored_iff {source source' : String} {form : ThrowForm}
    (h : ThrowAt d (File.read source) call list) (h' : ThrowAt d (File.read source') again list')
    (hform : d.throwToggle? call = some form) (hform' : d.throwToggle? again = some form.other)
    (htexts : again.args.map (·.text) = call.args.map form.convert) :
    (again.args.map fun a => squeezed (form.other.convert a)) = (call.args.map fun a => squeezed a.text) ↔
      (∀ m ∈ list.codeChildren, isExact (File.read source) m = true) ∧
        ∀ m ∈ list'.codeChildren, isExact (File.read source') m = true := by
  obtain ⟨hargs, hregular⟩ := h.regular
  obtain ⟨hargs', hregular'⟩ := h'.regular
  have hthrown := hform ▸ thrown_throwToggle? h.throws
  have hthrown' := hform' ▸ thrown_throwToggle? h'.throws
  rw [hargs, hargs', List.map_map, List.map_map] at htexts ⊢
  refine map_eq_map_iff htexts fun m hm m' hm' htext => ?_
  have ha : readArg (File.read source) m ∈ call.args := hargs ▸ List.mem_map_of_mem hm
  have hb : readArg (File.read source') m' ∈ again.args := hargs' ▸ List.mem_map_of_mem hm'
  rw [Function.comp_apply, Function.comp_apply, text_readArg] at htext ⊢
  cases hthrown with
  | literals all =>
    cases hthrown' with
    | creations all' => exact restored_literal (hregular m hm) (hregular' m' hm') (all _ ha) (all' _ hb) htext
  | creations all =>
    cases hthrown' with
    | literals all' => exact restored_creation (hregular m hm) (hregular' m' hm') (all _ ha) (all' _ hb) htext

theorem toggleThrow_eq_ok {edits : List Edit} (h : toggleThrow d call = .ok edits) :
    ∃ form, d.throwToggle? call = some form ∧ edits = call.args.map fun a => replace a.span (form.convert a) := by
  unfold toggleThrow at h
  split at h
  · next form hform => exact ⟨form, hform, (Except.ok.inj h).symm⟩
  · cases h

theorem toggleThrow_eq_error (h : d.isThrow call = true) :
    toggleThrow d call = .error (.argumentsNotConvertible call.name) ↔
      ¬ (∀ a ∈ call.args, a.isClassLiteral = true) ∧ ¬ ∀ a ∈ call.args, isPlainInstance a = true := by
  have hthrown := thrown_throwToggle? h
  unfold toggleThrow
  generalize d.throwToggle? call = form at hthrown ⊢
  cases hthrown with
  | literals all => exact ⟨nofun, fun h => absurd all h.1⟩
  | creations all => exact ⟨nofun, fun h => absurd all h.2⟩
  | neither literal creation => exact ⟨fun _ => ⟨literal, creation⟩, fun _ => rfl⟩

/-- A throwing setter is turned down just if its arguments are neither class literals nor create objects without
arguments. If it is not, every argument is replaced where it stands; and wherever the new texts are read as the
arguments of a setter, turning them again gives back the old ones, white space aside, just if they are read in the
other form and no argument, before and after, holds more than its form says. -/
theorem toggled_throw_restored_iff (d : Stubbing.Dialect) (source : String) (call : Call) (list : Node)
    (h : ThrowAt d (File.read source) call list) :
    (toggleThrow d call = .error (.argumentsNotConvertible call.name) ↔
      ¬ (∀ a ∈ call.args, a.isClassLiteral = true) ∧ ¬ ∀ a ∈ call.args, isPlainInstance a = true) ∧
    ∀ edits, toggleThrow d call = .ok edits →
      edits.map (·.span) = call.args.map (·.span) ∧
      ∀ source' again list', ThrowAt d (File.read source') again list' →
        again.args.map (·.text) = edits.map (·.replacement) →
        ((∃ back, toggleThrow d again = .ok back ∧
            (back.map fun e => squeezed e.replacement) = call.args.map fun a => squeezed a.text) ↔
          d.throwToggle? again = (d.throwToggle? call).map ThrowForm.other ∧
            (∀ m ∈ list.codeChildren, isExact (File.read source) m = true) ∧
            ∀ m ∈ list'.codeChildren, isExact (File.read source') m = true) := by
  refine ⟨toggleThrow_eq_error h.throws, fun edits hedits => ?_⟩
  obtain ⟨form, hform, rfl⟩ := toggleThrow_eq_ok hedits
  refine ⟨by simp [replace], fun source' again list' h' htexts => ?_⟩
  have htexts' : again.args.map (·.text) = call.args.map form.convert := by
    rw [htexts, List.map_map]
    rfl
  rw [hform, Option.map_some]
  constructor
  · rintro ⟨back, hback, hrestored⟩
    obtain ⟨form', hform', rfl⟩ := toggleThrow_eq_ok hback
    obtain rfl := h.other h' hform hform' htexts'
    rw [List.map_map] at hrestored
    exact ⟨hform', (h.restored_iff h' hform hform' htexts').mp hrestored⟩
  · rintro ⟨hform', hexact⟩
    refine ⟨again.args.map fun a => replace a.span (form.other.convert a), by rw [toggleThrow, hform'], ?_⟩
    rw [List.map_map]
    exact (h.restored_iff h' hform hform' htexts').mpr hexact

theorem toggled_throw_restored_instances :
    let before := "import org.mockito.*;class T\x7b\x7bMockito.when(a.b()).thenThrow(new A(), new  B ());\x7d\x7d"
    let after := "import org.mockito.*;class T\x7b\x7bMockito.when(a.b()).thenThrow(A.class, B.class);\x7d\x7d"
    let d := Stubbing.Dialect.mockitoWhen
    ∃ call list again list' edits back, ThrowAt d (File.read before) call list ∧ toggleThrow d call = .ok edits ∧
      ThrowAt d (File.read after) again list' ∧ again.args.map (·.text) = edits.map (·.replacement) ∧
      toggleThrow d again = .ok back ∧
      (back.map fun e => squeezed e.replacement) = call.args.map fun a => squeezed a.text := by
  intro before after d
  have hcomputed : (((File.read before).callAt? 50).any fun c =>
      (readCall? (File.read before) c.node).any fun call => (c.node.child? .arguments).any fun list =>
      d.isThrow call && list.codeChildren.all (isExact (File.read before)) &&
      ((toggleThrow d call).toOption.any fun edits => ((File.read after).callAt? 50).any fun c =>
        (readCall? (File.read after) c.node).any fun again => (c.node.child? .arguments).any fun list' =>
        d.isThrow again && list'.codeChildren.all (isExact (File.read after)) &&
        again.args.map (·.text) == edits.map (·.replacement) &&
        d.throwToggle? again == (d.throwToggle? call).map ThrowForm.other)) = true := by
    decide +kernel
  obtain ⟨c, hc, hcomputed⟩ := (Option.any_eq_true _ _).mp hcomputed
  obtain ⟨call, hcall, hcomputed⟩ := (Option.any_eq_true _ _).mp hcomputed
  obtain ⟨list, hlist, hcomputed⟩ := (Option.any_eq_true _ _).mp hcomputed
  rw [Bool.and_eq_true, Bool.and_eq_true, List.all_eq_true] at hcomputed
  obtain ⟨⟨hthrow, hexact⟩, hcomputed⟩ := hcomputed
  obtain ⟨edits, hedits, hcomputed⟩ := (Option.any_eq_true _ _).mp hcomputed
  obtain ⟨c', hc', hcomputed⟩ := (Option.any_eq_true _ _).mp hcomputed
  obtain ⟨again, hagain, hcomputed⟩ := (Option.any_eq_true _ _).mp hcomputed
  obtain ⟨list', hlist', hcomputed⟩ := (Option.any_eq_true _ _).mp hcomputed
  simp only [Bool.and_eq_true, List.all_eq_true, beq_iff_eq] at hcomputed
  obtain ⟨⟨⟨hthrow', hexact'⟩, htexts⟩, hform⟩ := hcomputed
  have h := throwAt_of_callAt? hc hcall hlist hthrow
  have h' := throwAt_of_callAt? hc' hagain hlist' hthrow'
  have hok := eq_ok_of_toOption hedits
  obtain ⟨back, hback, hrestored⟩ := (((toggled_throw_restored_iff d before call list h).2 edits hok).2 after again
    list' h' htexts).mpr ⟨hform, hexact, hexact'⟩
  exact ⟨call, list, again, list', edits, back, h, hok, h', htexts, hback, hrestored⟩

/-- The body of an anonymous class is lost: turned into a class literal and back, the instance is one of the class that
was extended. -/
theorem toggled_throw_loses_body :
    let before := "import org.mockito.*;class T\x7b\x7bMockito.when(a.b()).thenThrow(new A()\x7bint n;\x7d);\x7d\x7d"
    let between := "import org.mockito.*;class T\x7b\x7bMockito.when(a.b()).thenThrow(A.class);\x7d\x7d"
    let after := "import org.mockito.*;class T\x7b\x7bMockito.when(a.b()).thenThrow(new A());\x7d\x7d"
    ∃ plan back, Planner.planThrowToggle { file := File.read before } (.caret 50) = .ok plan ∧
      plan.preview before = .ok between ∧
      Planner.planThrowToggle { file := File.read between } (.caret 50) = .ok back ∧
      back.preview between = .ok after ∧ squeezed before ≠ squeezed after := by
  intro before between after
  have hcomputed : ((Planner.planThrowToggle { file := File.read before } (.caret 50)).toOption.any fun plan =>
      (plan.preview before).toOption == some between &&
      (Planner.planThrowToggle { file := File.read between } (.caret 50)).toOption.any fun back =>
        (back.preview between).toOption == some after && squeezed before != squeezed after) = true := by
    decide +kernel
  obtain ⟨plan, hplan, hcomputed⟩ := (Option.any_eq_true _ _).mp hcomputed
  rw [Bool.and_eq_true, beq_iff_eq] at hcomputed
  obtain ⟨back, hback, hrest⟩ := (Option.any_eq_true _ _).mp hcomputed.2
  rw [Bool.and_eq_true, beq_iff_eq, bne_iff_ne] at hrest
  exact ⟨plan, back, eq_ok_of_toOption hplan, eq_ok_of_toOption hcomputed.1, eq_ok_of_toOption hback,
    eq_ok_of_toOption hrest.1, hrest.2⟩

end MockDialect.Conversion
