import MockDialect.Proofs.Conversion.Ordering
import MockDialect.Proofs.Conversion.Pointing
import MockDialect.Proofs.Java.Origins
import MockDialect.Proofs.Java.Spacing
import MockDialect.Proofs.Source.Declared

namespace MockDialect.Java

/-- What holds statements that follow one another. -/
def Kind.isList : Kind → Bool
  | .block | .constructorBody | .switchGroup | .program => true
  | _ => false

/-- What holds a single statement as its body or in its head. -/
def Kind.isGuard : Kind → Bool
  | .ifStatement | .whileStatement | .doStatement | .forStatement | .enhancedForStatement | .labeledStatement
  | .switchRule => true
  | _ => false

theorem Kind.isList_eq_false_iff {k : Kind} (h : k.holdsSteps = true) : k.isList = false ↔ k.isGuard = true := by
  revert h
  cases k <;> decide

end MockDialect.Java

namespace MockDialect.Conversion

open Api Chain Edit Java Recognition Source Text

variable {f : File} {c s list : Cursor}

theorem statement?_eq_some (h : Cursor.In f.tree c) (hs : c.statement? = some s) :
    Cursor.In f.tree s ∧ s.kind.isStep = true ∧ s.node.Within c.node := by
  obtain ⟨hin, hstep, hwithin⟩ := h.nearest hs
  refine ⟨hin, ?_, hwithin⟩
  revert hstep
  generalize s.kind = kind
  cases kind <;> decide

theorem holdsSteps_parent (source : String) (h : Cursor.In (File.read source).tree s) (hstep : s.kind.isStep = true)
    (hlist : s.parent? = some list) : list.kind.holdsSteps = true :=
  Kind.holdsSteps_of_holds (File.read_holds source h hlist) hstep

/-- What the statement around a chain stands in. -/
def holder? (c : Cursor) : Option Cursor := (outermostCall c).statement?.bind (·.parent?)

theorem exists_map_eq {α β : Type} {g : α → β} {P : α → Prop} {ys : List β} (h : ∀ y ∈ ys, ∃ x, P x ∧ g x = y) :
    ∃ xs : List α, xs.map g = ys ∧ ∀ x ∈ xs, P x := by
  induction ys with
  | nil => exact ⟨[], rfl, nofun⟩
  | cons y ys ih =>
    obtain ⟨x, hx, rfl⟩ := h y (.head ys)
    obtain ⟨xs, rfl, hxs⟩ := ih fun z hz => h z (.tail _ hz)
    exact ⟨x :: xs, rfl, List.forall_mem_cons.mpr ⟨hx, hxs⟩⟩

/-- The sites of a selection are those of some calls, and the statements around them stand in one place. -/
structure SelectedFrom (f : File) (selected : Selected) (calls : List Cursor) : Prop where
  sites : calls.map (siteOf f) = selected.sites
  places : ∀ c ∈ calls, Cursor.In f.tree c ∧ c.isCall = true
  together : ∀ a ∈ calls, ∀ b ∈ calls, holder? a = holder? b

theorem selectedFrom_caret {offset : Nat} (h : c ∈ callsAround (f.placeAt offset)) (dialect : Dialect) (bulk : Bool) :
    SelectedFrom f ⟨dialect, [siteOf f c], bulk⟩ [c] := by
  refine ⟨rfl, List.forall_mem_singleton.mpr (mem_callsAround (placeAt_in f offset) h), fun a ha b hb => ?_⟩
  rw [List.mem_singleton.mp ha, List.mem_singleton.mp hb]

theorem exists_selectedFrom (hf : f.Sound) {selection : Selection} {selected : Selected}
    (h : select f selection = .ok selected) : ∃ calls, SelectedFrom f selected calls := by
  cases selection with
  | caret offset =>
    obtain ⟨call, dialect, hcall, -, rfl⟩ := selectAt_eq_ok h
    exact ⟨[call], selectedFrom_caret hcall dialect false⟩
  | range span =>
    obtain ⟨hstatements, -⟩ := statementsIn_spec hf.regular span
    have hcalls : ∀ site ∈ selected.sites, ∃ c, ((Cursor.In f.tree c ∧ c.isCall = true) ∧
        ∃ s ∈ f.statementsIn span, (outermostCall c).statement? = some s) ∧ siteOf f c = site := by
      intro site hsite
      obtain ⟨s, hs, hread⟩ := exists_of_map_eq (selectRange_eq_ok h) site hsite
      obtain ⟨hin, hkind⟩ := hstatements s hs
      obtain ⟨chain, hchain, -, rfl⟩ := readStatement_eq_ok hread
      unfold chainOfStatement? at hchain
      split at hchain
      case h_2 => cases hchain
      case h_1 expression hexpression =>
        split at hchain
        case isFalse => cases hchain
        case isTrue hcall =>
          obtain rfl := Option.some.inj hchain
          have hmem := List.mem_of_find?_eq_some hexpression
          obtain ⟨n, hn, rfl⟩ := List.mem_map.mp hmem
          refine ⟨_, ⟨⟨hin.child hmem, hcall⟩, s, hs, ?_⟩, siteOf_of_statement hkind hcall⟩
          rw [outermostCall_of_statement hkind, statement?_of_statement hkind hcall]
    obtain ⟨calls, hsites, hcalls⟩ := exists_map_eq hcalls
    refine ⟨calls, hsites, fun c hc => (hcalls c hc).1, fun a ha b hb => ?_⟩
    obtain ⟨-, s, hs, hstatement⟩ := hcalls a ha
    obtain ⟨-, s', hs', hstatement'⟩ := hcalls b hb
    rw [holder?, holder?, hstatement, hstatement', Option.bind_some, Option.bind_some, statementsIn_siblings hs hs']

/-- An edit that puts something right in front of an offset: at most white space is between the two. -/
def StandsBefore (f : File) (e : Edit) (offset : Nat) : Prop :=
  ∃ start, e.span = .point start ∧ start ≤ offset ∧ allBlank (f.spanText ⟨start, offset⟩).toList = true

theorem standsBefore_declareInOrder {start : Nat} (name : String) (args : List String)
    (hcut : isBoundary f.text start = true) : StandsBefore f (declareInOrder f start name args) start := by
  unfold declareInOrder
  dsimp only
  split
  case isTrue hblank => exact ⟨_, rfl, lineStart_le f.text start, hblank⟩
  case isFalse =>
    refine ⟨start, rfl, Nat.le_refl _, ?_⟩
    obtain ⟨before, after, htext, rfl⟩ := isBoundary_iff.mp hcut
    have hempty := slice_middle before [] after
    rw [List.append_nil, ← htext] at hempty
    rw [File.spanText, show slice f.text ⟨width before, width before⟩ = _ from hempty]
    rfl

/-- Chains whose statements are all in one list. -/
structure InList (f : File) (calls : List Cursor) (list : Cursor) : Prop where
  kind : list.kind.isList = true
  holds : ∀ c ∈ calls, ∃ s, (outermostCall c).statement? = some s ∧ s.parent? = some list
  contains : ∀ c ∈ calls, list.span.start ≤ (chainOf f c).span.start ∧ (chainOf f c).span.stop ≤ list.span.stop

theorem span_chainOf_inside (hf : f.Sound) (hc : Cursor.In f.tree c) (hcall : c.isCall = true)
    (hs : (outermostCall c).statement? = some s) (hlist : s.parent? = some list) :
    list.span.start ≤ (chainOf f c).span.start ∧ (chainOf f c).span.stop ≤ list.span.stop := by
  obtain ⟨hin, -, hwithin⟩ := statement?_eq_some (getLast?_chainOf hf hc hcall).1 hs
  obtain ⟨hup, -, hmem⟩ := hin.parent hlist
  rw [span_chainOf hf hc hcall]
  exact (Node.Within.child .self hmem |>.trans hwithin).inside (hup.placed hf.placed)

theorem SelectedFrom.inList_iff {source : String} {selected : Selected} {first : Cursor} {rest : List Cursor}
    (h : SelectedFrom (File.read source) selected (first :: rest)) :
    (∃ list, InList (File.read source) (first :: rest) list) ↔
      ∃ holder, holder? first = some holder ∧ holder.kind.isGuard = false := by
  have hf : (File.read source).Sound := File.read_sound source
  constructor
  · rintro ⟨list, hkind, hholds, -⟩
    obtain ⟨s, hs, hparent⟩ := hholds first (.head rest)
    refine ⟨list, by rw [holder?, hs]; exact hparent, ?_⟩
    revert hkind
    generalize list.kind = kind
    cases kind <;> decide
  · rintro ⟨list, hlist, hguard⟩
    have hholds : ∀ c ∈ first :: rest, ∃ s, (outermostCall c).statement? = some s ∧ s.parent? = some list := by
      intro c hc
      exact Option.bind_eq_some_iff.mp ((h.together c hc first (.head rest)).trans hlist)
    obtain ⟨s, hs, hparent⟩ := hholds first (.head rest)
    obtain ⟨hin, hcall⟩ := h.places first (.head rest)
    obtain ⟨hin, hstep, -⟩ := statement?_eq_some (getLast?_chainOf hf hin hcall).1 hs
    have hsteps := holdsSteps_parent source hin hstep hparent
    refine ⟨list, ?_, hholds, fun c hc => ?_⟩
    · by_contra hno
      rw [Bool.not_eq_true, Kind.isList_eq_false_iff hsteps, hguard] at hno
      cases hno
    · obtain ⟨s, hs, hparent⟩ := hholds c hc
      exact span_chainOf_inside hf (h.places c hc).1 (h.places c hc).2 hs hparent

/-- A file in which a variable of type `InOrder` is declared, once, by a statement that stands in `holder`. -/
structure DeclaresOrder (f : File) (name : String) (holder : Cursor) (start : Nat) : Prop where
  place : ∃ c declarator n, Cursor.In f.tree c ∧ c.kind = .localVariableDeclaration ∧ c.parent? = some holder ∧
    f.names.typeText c.node = "InOrder" ∧ declarator ∈ c.node.childrenWith .declarator ∧
    declarator.child? .name = some n ∧ f.spell n = name ∧ n.span.start = start
  once : (f.declared.filter (·.name == name)).length = 1
  imported : f.imports.importable inOrderClass = true

theorem declaredApiType?_inOrder {imports : Imports} (h : imports.importable inOrderClass = true) :
    declaredApiType? imports "InOrder" = some .inOrder := by
  have hbase : trim (upTo '<' "InOrder") = "InOrder" := by decide +kernel
  have hname : simpleName inOrderClass = "InOrder" := by decide +kernel
  rw [Imports.importable, hname] at h
  rw [declaredApiType?, hbase, ApiType.declarable, List.find?_cons_of_pos (by exact h)]
  rfl

theorem lookup?_of_once {declared : List Variable} {name : String} {v : Variable} (offset : Nat)
    (h : declared.filter (·.name == name) = [v]) :
    Variable.lookup? declared name offset = if v.visibleAt offset then some v else none := by
  have hfilter : (declared.filter fun v => v.name == name && v.visibleAt offset) =
      [v].filter (·.visibleAt offset) := by
    rw [← h, List.filter_filter]
    exact List.filter_congr fun x _ => Bool.and_comm _ _
  rw [Variable.lookup?, hfilter]
  by_cases hv : v.visibleAt offset = true
  · rw [List.filter_cons_of_pos (by exact hv), if_pos hv]
    rfl
  · rw [List.filter_cons_of_neg (by exact hv), if_neg hv]
    rfl

theorem DeclaresOrder.exists_variable {source name : String} {holder : Cursor} {start : Nat}
    (h : DeclaresOrder (File.read source) name holder start) :
    holder.span.start ≤ start ∧ ∃ v, (File.read source).declared.filter (·.name == name) = [v] ∧ v.kind = .local ∧
      v.scope = holder.span ∧ v.declaredAt = start ∧ v.apiType = some .inOrder := by
  have hf : (File.read source).Sound := File.read_sound source
  obtain ⟨c, declarator, n, hin, hkind, hparent, htype, hdeclarator, hname, hspell, rfl⟩ := h.place
  have hdeclares : declarator ∈ c.node.children := (List.mem_filter.mp hdeclarator).1
  have hnames : n ∈ declarator.children := List.mem_of_find?_eq_some hname
  obtain ⟨hup, -, hmem⟩ := hin.parent hparent
  obtain ⟨v, hv⟩ := List.length_eq_one_iff.mp h.once
  -- the variable of this declaration has the name, and only one variable has it
  obtain ⟨w, hw⟩ : ∃ w, Names.declared? ⟨(File.read source).text, (File.read source).imports, []⟩ .local "InOrder"
      holder.span declarator = some w := by
    rw [Names.declared?, hname]
    exact ⟨_, rfl⟩
  have hwfields : w.name = name ∧ w.kind = .local ∧ w.scope = holder.span ∧ w.declaredAt = n.span.start := by
    rw [Names.declared?, hname] at hw
    obtain rfl := Option.some.inj hw
    exact ⟨hspell, rfl, rfl, rfl⟩
  have hdeclared : w ∈ (File.read source).declared := by
    obtain ⟨tree, broken, -, he⟩ := File.read_eq source
    rw [he] at hin hw htype ⊢
    replace htype : Names.typeText ⟨source.toList, .ofTree source.toList tree, []⟩ c.node = "InOrder" := htype
    refine List.mem_flatMap.mpr ⟨c, hin.mem_all, ?_⟩
    rw [Names.declaredAt, hkind]
    refine List.mem_filterMap.mpr ⟨declarator, hdeclarator, ?_⟩
    rw [Names.parentSpan, hparent, htype]
    exact hw
  obtain rfl : w = v := by
    have hmem : w ∈ (File.read source).declared.filter (·.name == name) :=
      List.mem_filter.mpr ⟨hdeclared, beq_iff_eq.mpr hwfields.1⟩
    rw [hv] at hmem
    exact List.mem_singleton.mp hmem
  refine ⟨?_, w, hv, hwfields.2.1, hwfields.2.2.1, hwfields.2.2.2, ?_⟩
  · have hwithin : holder.node.Within n := ((Node.Within.child .self hmem).child hdeclares).child hnames
    exact (hwithin.inside (hup.placed hf.placed)).1
  · rw [(apiType_of_declared? hw).2 (by decide)]
    exact declaredApiType?_inOrder h.imported

theorem DeclaresOrder.lookup?_iff {source name : String} {holder : Cursor} {start : Nat}
    (h : DeclaresOrder (File.read source) name holder start) (offset : Nat) :
    (∃ v, (File.read source).lookup? name offset = some v ∧ v.apiType = some .inOrder) ↔
      start ≤ offset ∧ offset ≤ holder.span.stop := by
  obtain ⟨hle, v, hv, hkind, hscope, rfl, htype⟩ := h.exists_variable
  have hvisible : v.visibleAt offset = true ↔ v.declaredAt ≤ offset ∧ offset ≤ holder.span.stop := by
    simp only [Variable.visibleAt, hkind, hscope, Bool.and_eq_true, Bool.or_eq_true, decide_eq_true_eq]
    constructor
    · rintro ⟨⟨-, hstop⟩, hlocal | hat⟩
      · cases hlocal
      · exact ⟨hat, hstop⟩
    · rintro ⟨hat, hstop⟩
      exact ⟨⟨Nat.le_trans hle hat, hstop⟩, .inr hat⟩
  rw [File.lookup?, lookup?_of_once offset hv, ← hvisible]
  split
  case isTrue hyes => exact ⟨fun _ => hyes, fun _ => ⟨v, rfl, htype⟩⟩
  case isFalse hno => simp [hno]

theorem SelectedFrom.ne_nil {selected : Selected} {calls : List Cursor} (h : SelectedFrom f selected calls)
    (hne : selected.sites ≠ []) : ∃ first rest, calls = first :: rest := by
  refine List.exists_cons_of_ne_nil fun hnil => hne ?_
  rw [← h.sites, hnil, List.map_nil]

theorem Replaced.length_edits {sites : List Site} {source : Verification.Dialect} {target : Verification.Target}
    {base : String} {heads : List Verification.Head} {edits : List Edit}
    (h : Replaced f sites source target base heads edits) : edits.length = sites.length := by
  have hmap := congrArg List.length (mapM_eq_ok.mp h.replaced)
  rw [List.length_map, List.length_map, List.length_zip, h.length_eq, Nat.min_self] at hmap
  exact hmap.symm.trans h.length_eq.symm

theorem eq_freshName {target : Verification.Target} {base name : String} {heads : List Verification.Head}
    (h : addedInOrder f target base heads = some name) : name = freshName f.identifiers base := by
  rw [addedInOrder] at h
  split at h
  · exact (Option.some.inj h).symm
  · cases h

/-- A new `InOrder` is declared right in front of the statement of the first chain, or of the chain if it is in no
statement. The chains are in one list of statements, of which the first chain's is one, unless that statement is held
by a guard or there is none. Where the declaration is read as it is written, the variable is known from there to the
end of what holds the declaration and nowhere else. -/
theorem introduced_order_listed_iff (text base : String) {selection : Selection} {selected : Selected}
    {source : Verification.Dialect} {target : Verification.Target} {planned : Planned}
    (hselect : select (File.read text) selection = .ok selected)
    (h : convertVerification (File.read text) selected.sites source target base = .ok planned) :
    let f := File.read text
    let name := freshName f.identifiers base
    (∃ first rest, SelectedFrom f selected (first :: rest)) ∧
    ∀ first rest, SelectedFrom f selected (first :: rest) → ∃ (declaration : Option Edit) (edits : List Edit),
      planned.edits = declaration.toList ++ edits ∧ edits.length = selected.sites.length ∧
      ∀ e ∈ declaration, name ∉ f.identifiers ∧
        (∃ args, e = declareInOrder f (siteOf f first).statementStart name args) ∧
        StandsBefore f e (siteOf f first).statementStart ∧
        (∀ site ∈ selected.sites, (siteOf f first).statementStart ≤ site.chain.span.start) ∧
        ((∃ list, InList f (first :: rest) list) ↔ ∃ holder, holder? first = some holder ∧ holder.kind.isGuard = false) ∧
        ∀ again holder start, DeclaresOrder (File.read again) name holder start → ∀ offset,
          (∃ v, (File.read again).lookup? name offset = some v ∧ v.apiType = some .inOrder) ↔
            start ≤ offset ∧ offset ≤ holder.span.stop := by
  intro f name
  have hf : f.Sound := File.read_sound text
  have hsites := select_found hf.regular hselect
  refine ⟨?_, fun first rest hcalls => ?_⟩
  · obtain ⟨calls, hcalls⟩ := exists_selectedFrom hf hselect
    obtain ⟨first, rest, rfl⟩ := hcalls.ne_nil (select_ne_nil hselect)
    exact ⟨first, rest, hcalls⟩
  obtain ⟨heads, edits, classes, hreplaced, -, hplanned⟩ := convertVerification_eq_ok h
  have hfirst : selected.sites = siteOf f first :: rest.map (siteOf f) := hcalls.sites.symm
  rw [hfirst] at hplanned
  cases hadded : addedInOrder f target base heads with
  | none =>
    rw [hadded] at hplanned
    exact ⟨none, edits, hplanned, hreplaced.length_edits, nofun⟩
  | some fresh =>
    obtain rfl := eq_freshName hadded
    rw [hadded] at hplanned
    refine ⟨some _, edits, hplanned, hreplaced.length_edits, fun e he => ?_⟩
    obtain rfl := Option.some.inj he
    have hsite := hsites.found (siteOf f first) (hfirst ▸ .head _)
    refine ⟨freshName_not_mem _ _, ⟨_, rfl⟩, standsBefore_declareInOrder _ _ hsite.cut, fun site hmem => ?_,
      hcalls.inList_iff, fun again holder start hdeclares => hdeclares.lookup?_iff⟩
    rw [hfirst] at hsites hmem
    exact Nat.le_trans hsite.starts (hsites.start_le hf.regular hmem)

theorem introduced_order_listed_in_lambda :
    let text := "import org.mockito.*;class T\x7bvoid t()\x7bif(x)\x7brun(() -> \x7bMockito.verify(a).b();\x7d);\x7d\x7d\x7d"
    let after := "import org.mockito.*;class T\x7bvoid t()\x7bif(x)\x7brun(() -> \x7b" ++
      "InOrder inOrder = Mockito.inOrder(a); inOrder.verify(a).b();\x7d);\x7d\x7d\x7d"
    ∃ selected planned first declaration edits list, select (File.read text) (.caret 64) = .ok selected ∧
      convertVerification (File.read text) selected.sites .mockitoVerify .inOrderVerify "inOrder" = .ok planned ∧
      SelectedFrom (File.read text) selected [first] ∧ planned.edits = declaration :: edits ∧
      StandsBefore (File.read text) declaration (siteOf (File.read text) first).statementStart ∧
      InList (File.read text) [first] list ∧
      ((Planner.plan { file := File.read text } (.caret 64) (.verification .inOrderVerify)).toOption.bind fun plan =>
        (plan.preview text).toOption) = some after ∧
      ∃ v, (File.read after).lookup? "inOrder" 93 = some v ∧ v.apiType = some .inOrder := by
  intro text after
  have hconverted : ((select (File.read text) (.caret 64)).toOption.any fun selected =>
      (convertVerification (File.read text) selected.sites .mockitoVerify .inOrderVerify "inOrder").toOption.any
        fun planned => planned.edits.length == 2) = true := by
    decide +kernel
  have hheld : ∀ c ∈ callsAround ((File.read text).placeAt 64),
      ((holder? c).any fun holder => !holder.kind.isGuard) = true := by
    decide +kernel
  have hname : freshName (File.read text).identifiers "inOrder" = "inOrder" := by decide +kernel
  have hdeclared : (((File.read after).cursors.find? (·.kind == .localVariableDeclaration)).any fun c =>
      c.parent?.any fun holder => (c.node.childrenWith .declarator).head?.any fun declarator =>
        (declarator.child? .name).any fun n => (File.read after).names.typeText c.node == "InOrder" &&
          (File.read after).spell n == "inOrder" && n.span.start ≤ 93 && 93 ≤ holder.span.stop) = true := by
    decide +kernel
  have hfile : ((File.read after).declared.filter (·.name == "inOrder")).length = 1 ∧
      (File.read after).imports.importable inOrderClass = true := by
    decide +kernel
  obtain ⟨selected, hselect, hconverted⟩ := (Option.any_eq_true _ _).mp hconverted
  obtain ⟨planned, hplanned, hlength⟩ := (Option.any_eq_true _ _).mp hconverted
  replace hselect := eq_ok_of_toOption hselect
  replace hplanned := eq_ok_of_toOption hplanned
  obtain ⟨first, dialect, hcall, -, rfl⟩ := selectAt_eq_ok hselect
  have hcalls := selectedFrom_caret hcall dialect false
  obtain ⟨declaration, edits, hedits, hsites, hdeclaration⟩ :=
    (introduced_order_listed_iff text "inOrder" hselect hplanned).2 first [] hcalls
  obtain ⟨e, rfl⟩ : ∃ e, declaration = some e := by
    cases declaration with
    | some e => exact ⟨e, rfl⟩
    | none =>
      rw [hedits, List.length_append, hsites] at hlength
      cases hlength
  obtain ⟨-, -, hstands, -, hlist, hscope⟩ := hdeclaration e rfl
  obtain ⟨holder, hholder, hguard⟩ := (Option.any_eq_true _ _).mp (hheld first hcall)
  obtain ⟨list, hin⟩ := hlist.mpr ⟨holder, hholder, by simpa using hguard⟩
  obtain ⟨c, hc, hdeclared⟩ := (Option.any_eq_true _ _).mp hdeclared
  obtain ⟨block, hblock, hdeclared⟩ := (Option.any_eq_true _ _).mp hdeclared
  obtain ⟨declarator, hdeclarator, hdeclared⟩ := (Option.any_eq_true _ _).mp hdeclared
  obtain ⟨n, hn, hdeclared⟩ := (Option.any_eq_true _ _).mp hdeclared
  simp only [Bool.and_eq_true, beq_iff_eq, decide_eq_true_eq] at hdeclared
  obtain ⟨⟨⟨htype, hspell⟩, hstart⟩, hstop⟩ := hdeclared
  rw [hname] at hscope
  have hkind := List.find?_some hc
  rw [beq_iff_eq] at hkind
  have hplace : DeclaresOrder (File.read after) "inOrder" block n.span.start :=
    ⟨⟨c, declarator, n, Cursor.in_of_mem_all (List.mem_of_find?_eq_some hc), hkind, hblock, htype,
      List.mem_of_head? hdeclarator, hn, hspell, rfl⟩, hfile.1, hfile.2⟩
  have hlookup := (hscope after block n.span.start hplace 93).mpr ⟨hstart, hstop⟩
  exact ⟨_, planned, first, e, edits, list, hselect, hplanned, hcalls, hedits, hstands, hin, by decide +kernel, hlookup⟩

/-- A body that is a single statement without braces is no list: the declaration takes its place, the verification is
no longer subject to the condition, and the variable is not known to it. -/
theorem introduced_order_takes_place_of_body :
    let text := "import org.mockito.*;class T\x7bvoid t()\x7bif(x)Mockito.verify(a).b();\x7d\x7d"
    let after := "import org.mockito.*;class T\x7bvoid t()\x7bif(x)" ++
      "InOrder inOrder = Mockito.inOrder(a); inOrder.verify(a).b();\x7d\x7d"
    ∃ plan call holder body, Planner.plan { file := File.read text } (.caret 52) (.verification .inOrderVerify) = .ok plan ∧
      plan.preview text = .ok after ∧ (File.read text).callAt? 52 = some call ∧ holder? call = some holder ∧
      holder.kind = .ifStatement ∧ (File.read after).broken = false ∧
      (File.read after).cursors.find? (·.kind == .ifStatement) = some body ∧ body.span.stop ≤ 81 ∧
      ((File.read after).lookup? "inOrder" 81).isNone = true := by
  intro text after
  have hcomputed : ((Planner.plan { file := File.read text } (.caret 52) (.verification .inOrderVerify)).toOption.any
      fun plan => (plan.preview text).toOption == some after && ((File.read text).callAt? 52).any fun call =>
        (holder? call).any fun holder => holder.kind == .ifStatement && (File.read after).broken == false &&
          ((File.read after).lookup? "inOrder" 81).isNone &&
          ((File.read after).cursors.find? (·.kind == .ifStatement)).any (·.span.stop ≤ 81)) = true := by
    decide +kernel
  obtain ⟨plan, hplan, hcomputed⟩ := (Option.any_eq_true _ _).mp hcomputed
  rw [Bool.and_eq_true, beq_iff_eq] at hcomputed
  obtain ⟨call, hcall, hheld⟩ := (Option.any_eq_true _ _).mp hcomputed.2
  obtain ⟨holder, hholder, hrest⟩ := (Option.any_eq_true _ _).mp hheld
  simp only [Bool.and_eq_true, beq_iff_eq] at hrest
  obtain ⟨⟨⟨hkind, hbroken⟩, hlookup⟩, hbody⟩ := hrest
  obtain ⟨body, hfound, hstop⟩ := (Option.any_eq_true _ _).mp hbody
  exact ⟨plan, call, holder, body, eq_ok_of_toOption hplan, eq_ok_of_toOption hcomputed.1, hcall, hholder, hkind, hbroken,
    hfound, decide_eq_true_eq.mp hstop, hlookup⟩

end MockDialect.Conversion
