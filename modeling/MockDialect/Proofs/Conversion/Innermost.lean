import MockDialect.Proofs.Conversion.Carets
import MockDialect.Proofs.Java.Covering

namespace MockDialect.Conversion

open Chain Java Recognition Source Text

variable {f : File} {c d : Cursor} {offset : Nat} {chain : Chain}

/-- A chain of a file around an offset. -/
structure ChainAround (f : File) (offset : Nat) (chain : Chain) : Prop where
  read : ∃ c, Cursor.In f.tree c ∧ c.isCall = true ∧ chain = chainOf f c
  starts : chain.span.start ≤ offset
  stops : offset < chain.span.stop

/-- The innermost chain of those around an offset that meet a condition: all others reach beyond it. -/
structure Innermost (f : File) (offset : Nat) (p : Chain → Bool) (chain : Chain) : Prop where
  around : ChainAround f offset chain
  meets : p chain = true
  least : ∀ other, ChainAround f offset other → p other = true → other ≠ chain →
    other.span.contains chain.span = true ∧ other.span ≠ chain.span

/-- The search for a chain from a place outwards: the chain of the nearest call is tried, then one goes on from above
the last call of that chain. -/
inductive Search (f : File) (p : Chain → Bool) : Cursor → Option Cursor → Prop where
  | exhausted {c : Cursor} (nearest : c.nearest? (·.isCall) = none) : Search f p c none
  | found {c call : Cursor} (nearest : c.nearest? (·.isCall) = some call) (meets : p (chainOf f call) = true) :
      Search f p c (some call)
  | topmost {c call : Cursor} (nearest : c.nearest? (·.isCall) = some call) (fails : p (chainOf f call) = false)
      (parent : (outermostCall call).parent? = none) : Search f p c none
  | outwards {c call up : Cursor} {result : Option Cursor} (nearest : c.nearest? (·.isCall) = some call)
      (fails : p (chainOf f call) = false) (parent : (outermostCall call).parent? = some up)
      (rest : Search f p up result) : Search f p c result

theorem placeAt_covers (f : File) (offset : Nat) :
    f.placeAt offset = ⟨f.tree, []⟩ ∨ Cursor.covers offset offset (f.placeAt offset).node = true := by
  unfold File.placeAt
  obtain ⟨kind, role, span, children⟩ := f.tree
  rw [Cursor.innermost]
  cases hamong : Cursor.innermostAmong offset offset children [.mk kind role span children] with
  | none => exact .inl rfl
  | some c => exact .inr (Cursor.covers_innermostAmong hamong)

theorem mem_callsAround_iff (hf : f.Sound) : c ∈ callsAround (f.placeAt offset) ↔
    Cursor.In f.tree c ∧ c.isCall = true ∧ c.span.start ≤ offset ∧ offset < c.span.stop := by
  constructor
  · intro hc
    obtain ⟨hin, hcall⟩ := mem_callsAround (placeAt_in f offset) hc
    have hmem := (List.mem_filter.mp hc).1
    rcases placeAt_covers f offset with hroot | hcovers
    · -- the root is no call
      rw [hroot] at hmem
      obtain rfl := List.mem_singleton.mp hmem
      exact absurd hf.program (Cursor.kind_ne_program hcall)
    · have hinside := ((placeAt_in f offset).outward_within c hmem).inside (hin.placed hf.placed)
      rw [Cursor.covers_iff] at hcovers
      exact ⟨hin, hcall, Nat.le_trans hinside.1 hcovers.1, Nat.lt_of_lt_of_le hcovers.2.1 hinside.2⟩
  · rintro ⟨hin, hcall, hstart, hstop⟩
    have hcovers : Cursor.covers offset offset c.node = true :=
      Cursor.covers_iff.mpr ⟨hstart, hstop, Nat.le_of_lt hstop⟩
    refine List.mem_filter.mpr ⟨?_, hcall⟩
    rw [File.placeAt, hin.innermost_eq hf.placed hcovers]
    exact Cursor.mem_outward_innermost

theorem callsAround_eq (hcall : c.isCall = true) :
    callsAround c = c :: outward c ++ (outermostCall c).parent?.elim [] callsAround := by
  rw [outermostCall, outward, if_pos hcall]
  obtain ⟨n, above⟩ := c
  dsimp only
  induction above generalizing n with
  | nil => exact List.filter_cons_of_pos hcall
  | cons m above ih =>
    have hstep : callsAround ⟨n, m :: above⟩ = ⟨n, m :: above⟩ :: callsAround ⟨m, above⟩ :=
      List.filter_cons_of_pos hcall
    rw [hstep, outwardFrom]
    split
    case isTrue hchained =>
      rw [ih m (Bool.and_eq_true_iff.mp hchained).1, List.getLastD_cons]
      rfl
    case isFalse => rfl

theorem outermostCall_mem (hcall : c.isCall = true) : outermostCall c ∈ callsAround c := by
  rw [callsAround_eq hcall]
  exact List.mem_append_left _ (List.getLastD_mem_cons)

theorem mem_links_of_mem_outward (hf : f.Sound) (h : Cursor.In f.tree c) (hcall : c.isCall = true)
    (hd : d ∈ c :: outward c) : d ∈ links c := by
  rw [← List.mem_reverse, ← inward_outermostCall_eq_reverse hf.qualified h hcall,
    inward_outermostCall hf.qualified h hcall]
  obtain ⟨rest, hrest⟩ := inward_eq_cons hcall
  rcases List.mem_cons.mp hd with rfl | hd
  · exact List.mem_append_right _ (hrest ▸ .head rest)
  · exact List.mem_append_left _ (List.mem_reverse.mpr hd)

theorem chainOf_of_mem_outward (hf : f.Sound) (h : Cursor.In f.tree c) (hcall : c.isCall = true)
    (hd : d ∈ c :: outward c) : chainOf f d = chainOf f c := by
  have hlink := mem_links_of_mem_outward hf h hcall hd
  obtain ⟨hdin, hdcall⟩ := links_in h d hlink
  exact chainOf_eq_of_outermostCall hf.qualified hdin hdcall h hcall
    (outermostCall_of_mem hf.qualified h hcall hlink)

theorem chainOf_contains (hf : f.Sound) (h : Cursor.In f.tree c) (hcall : c.isCall = true) :
    (chainOf f c).span.contains c.span = true := by
  have hmem := (List.mem_filter.mp (outermostCall_mem hcall)).1
  rw [span_chainOf hf h hcall, Span.contains_iff]
  exact (h.outward_within _ hmem).inside ((h.outward _ hmem).placed hf.placed)

theorem chainAround_iff (hf : f.Sound) :
    ChainAround f offset chain ↔ ∃ c ∈ callsAround (f.placeAt offset), chain = chainOf f c := by
  constructor
  · rintro ⟨⟨c, hin, hcall, rfl⟩, hstart, hstop⟩
    obtain ⟨houter, houterCall, -⟩ := getLast?_chainOf hf hin hcall
    rw [span_chainOf hf hin hcall] at hstart hstop
    refine ⟨outermostCall c, (mem_callsAround_iff hf).mpr ⟨houter, houterCall, hstart, hstop⟩, ?_⟩
    exact (chainOf_of_mem_outward hf hin hcall (List.getLastD_mem_cons)).symm
  · rintro ⟨c, hc, rfl⟩
    obtain ⟨hin, hcall, hstart, hstop⟩ := (mem_callsAround_iff hf).mp hc
    have hcontains := Span.contains_iff.mp (chainOf_contains hf hin hcall)
    exact ⟨⟨c, hin, hcall, rfl⟩, Nat.le_trans hcontains.1 hstart, Nat.lt_of_lt_of_le hstop hcontains.2⟩

section

variable {p : Chain → Bool} {result : Option Cursor}

theorem callsAround_of_nearest_eq_none (h : c.nearest? (·.isCall) = none) : callsAround c = [] :=
  List.filter_eq_nil_iff.mpr (List.find?_eq_none.mp h)

theorem find?_callsAround (hf : f.Sound) (h : Cursor.In f.tree c) {call : Cursor}
    (hnearest : c.nearest? (·.isCall) = some call) :
    (callsAround c).find? (fun d => p (chainOf f d)) =
      if p (chainOf f call) then some call
      else (outermostCall call).parent?.bind fun up => (callsAround up).find? fun d => p (chainOf f d) := by
  obtain ⟨hin, hcall, -⟩ := h.nearest hnearest
  rw [callsAround_nearest hnearest, callsAround_eq hcall]
  split
  case isTrue hp => rw [List.cons_append, List.find?_cons_of_pos (p := fun d => p (chainOf f d)) hp]
  case isFalse hp =>
    have hrun : (call :: outward call).find? (fun d => p (chainOf f d)) = none :=
      List.find?_eq_none.mpr fun d hd => by rwa [chainOf_of_mem_outward hf hin hcall hd]
    rw [List.find?_append, hrun, Option.none_or]
    cases (outermostCall call).parent? <;> rfl

theorem length_callsAround_lt (h : Cursor.In f.tree c) {call up : Cursor}
    (hnearest : c.nearest? (·.isCall) = some call) (hparent : (outermostCall call).parent? = some up) :
    (callsAround up).length < (callsAround c).length := by
  rw [callsAround_nearest hnearest, callsAround_eq (h.nearest hnearest).2.1, hparent, List.length_append,
    List.length_cons]
  dsimp only [Option.elim]
  omega

theorem search_find? (hf : f.Sound) (h : Cursor.In f.tree c) :
    Search f p c ((callsAround c).find? fun call => p (chainOf f call)) := by
  -- the calls that are left become fewer with every chain
  induction hlength : (callsAround c).length using Nat.strong_induction_on generalizing c with
  | _ length ih =>
    subst hlength
    cases hnearest : c.nearest? (·.isCall) with
    | none =>
      rw [callsAround_of_nearest_eq_none hnearest]
      exact .exhausted hnearest
    | some call =>
      rw [find?_callsAround hf h hnearest]
      obtain ⟨hin, hcall, -⟩ := h.nearest hnearest
      cases hp : p (chainOf f call) with
      | true => exact .found hnearest hp
      | false =>
        cases hparent : (outermostCall call).parent? with
        | none => exact .topmost hnearest hp hparent
        | some up =>
          have hup := ((getLast?_chainOf hf hin hcall).1.parent hparent).1
          exact .outwards hnearest hp hparent (ih _ (length_callsAround_lt h hnearest hparent) hup rfl)

theorem Search.eq_find? (h : Search f p c result) (hf : f.Sound) (hc : Cursor.In f.tree c) :
    result = (callsAround c).find? fun call => p (chainOf f call) := by
  induction h with
  | exhausted nearest => rw [callsAround_of_nearest_eq_none nearest, List.find?_nil]
  | found nearest meets => rw [find?_callsAround hf hc nearest, if_pos meets]
  | topmost nearest fails parent =>
    rw [find?_callsAround hf hc nearest, if_neg (Bool.eq_false_iff.mp fails), parent, Option.bind_none]
  | outwards nearest fails parent _ ih =>
    obtain ⟨hin, hcall, -⟩ := hc.nearest nearest
    have hup := ((getLast?_chainOf hf hin hcall).1.parent parent).1
    rw [find?_callsAround hf hc nearest, if_neg (Bool.eq_false_iff.mp fails), parent, Option.bind_some, ih hup]

theorem search_iff (hf : f.Sound) (h : Cursor.In f.tree c) :
    Search f p c result ↔ result = (callsAround c).find? fun call => p (chainOf f call) :=
  ⟨fun hsearch => hsearch.eq_find? hf h, fun hresult => hresult ▸ search_find? hf h⟩

theorem Search.before (h : Search f p c result) (hf : f.Sound) (hc : Cursor.In f.tree c) :
    ∀ call ∈ result, ∀ d ∈ callsAround c, p (chainOf f d) = true → chainOf f d = chainOf f call ∨
      ∃ up, (outermostCall call).parent? = some up ∧ d ∈ callsAround up := by
  induction h with
  | exhausted | topmost => exact nofun
  | @found c call nearest meets =>
    intro found hfound d hd hp
    obtain rfl := Option.some.inj hfound
    obtain ⟨hin, hcall, -⟩ := hc.nearest nearest
    rw [callsAround_nearest nearest, callsAround_eq hcall] at hd
    rcases List.mem_append.mp hd with hd | hd
    · exact .inl (chainOf_of_mem_outward hf hin hcall hd)
    · cases hparent : (outermostCall call).parent? with
      | none =>
        rw [hparent] at hd
        cases hd
      | some up =>
        rw [hparent] at hd
        exact .inr ⟨up, rfl, hd⟩
  | @outwards c call up result nearest fails parent rest ih =>
    intro found hfound d hd hp
    obtain ⟨hin, hcall, -⟩ := hc.nearest nearest
    rw [callsAround_nearest nearest, callsAround_eq hcall, parent] at hd
    rcases List.mem_append.mp hd with hd | hd
    · rw [chainOf_of_mem_outward hf hin hcall hd, fails] at hp
      cases hp
    · exact ih ((getLast?_chainOf hf hin hcall).1.parent parent).1 found hfound d hd hp

theorem innermost_of_search (hf : f.Sound)
    (hsolid : f.Solid)
    {call : Cursor} (h : Search f p (f.placeAt offset) (some call)) : Innermost f offset p (chainOf f call) := by
  have hplace := placeAt_in f offset
  have hfind := (search_iff hf hplace).mp h
  have hmem := List.mem_of_find?_eq_some hfind.symm
  obtain ⟨hin, hcall⟩ := mem_callsAround hplace hmem
  refine ⟨(chainAround_iff hf).mpr ⟨call, hmem, rfl⟩, List.find?_some (p := fun d => p (chainOf f d)) hfind.symm,
    fun other hother hp hne => ?_⟩
  obtain ⟨d, hd, rfl⟩ := (chainAround_iff hf).mp hother
  obtain ⟨hdin, hdcall⟩ := mem_callsAround hplace hd
  rcases h.before hf hplace call rfl d hd hp with heq | ⟨up, hparent, hup⟩
  · exact absurd heq hne
  · -- the last call of the one chain is below a call of the other
    obtain ⟨houter, houterCall, -⟩ := getLast?_chainOf hf hin hcall
    obtain ⟨hupin, habove, hchild⟩ := houter.parent hparent
    have hbelow := hupin.outward_within d (List.mem_filter.mp hup).1
    have hinside := (hbelow.child hchild).inside (hdin.placed hf.placed)
    have hcontains := Span.contains_iff.mp (chainOf_contains hf hdin hdcall)
    rw [span_chainOf hf hin hcall]
    refine ⟨Span.contains_iff.mpr ⟨Nat.le_trans hcontains.1 hinside.1, Nat.le_trans hinside.2 hcontains.2⟩,
      fun hspan => hne ?_⟩
    obtain ⟨hdouter, hdouterCall, -⟩ := getLast?_chainOf hf hdin hdcall
    rw [span_chainOf hf hdin hdcall] at hspan
    exact chainOf_eq_of_outermostCall hf.qualified hdin hdcall hin hcall
      (eq_of_span (chainable_of_sound hf hsolid) hdouter hdouterCall houter houterCall hspan)

theorem search_none_iff (hf : f.Sound) :
    Search f p (f.placeAt offset) none ↔ ∀ chain, ChainAround f offset chain → p chain = false := by
  rw [search_iff hf (placeAt_in f offset), eq_comm, List.find?_eq_none]
  constructor
  · intro h chain hchain
    obtain ⟨c, hc, rfl⟩ := (chainAround_iff hf).mp hchain
    exact Bool.eq_false_iff.mpr (h c hc)
  · intro h c hc
    exact Bool.eq_false_iff.mp (h _ ((chainAround_iff hf).mpr ⟨c, hc, rfl⟩))

/-- What a search around an offset comes to: the search ends in one way, at the innermost chain if there is one. -/
structure Finds (f : File) (offset : Nat) (p : Chain → Bool) (found : Option Cursor) : Prop where
  search : Search f p (f.placeAt offset) found
  only : ∀ other, Search f p (f.placeAt offset) other → other = found
  innermost : ∀ call ∈ found, Innermost f offset p (chainOf f call)
  absent : found = none ↔ ∀ chain, ChainAround f offset chain → p chain = false

theorem finds_find? (hf : f.Sound)
    (hsolid : f.Solid)
    (offset : Nat) (p : Chain → Bool) :
    Finds f offset p ((callsAround (f.placeAt offset)).find? fun call => p (chainOf f call)) where
  search := search_find? hf (placeAt_in f offset)
  only := fun _ hother => (search_iff hf (placeAt_in f offset)).mp hother
  innermost := fun call hcall => by
    refine innermost_of_search hf hsolid ?_
    rw [← Option.mem_def.mp hcall]
    exact search_find? hf (placeAt_in f offset)
  absent := by rw [← search_none_iff hf, search_iff hf (placeAt_in f offset), eq_comm]

end

theorem selectAt_of_find? {found : Option Cursor}
    (h : (callsAround (f.placeAt offset)).find? (fun call => (classify? (chainOf f call)).isSome) = found) :
    match found with
    | some call => ∃ dialect, classify? (chainOf f call) = some dialect ∧
        selectAt f offset = .ok ⟨dialect, [siteOf f call], false⟩
    | none => selectAt f offset = .error .notClassified := by
  cases found with
  | none =>
    have hnone : (callsAround (f.placeAt offset)).findSome? (fun call =>
        (classify? (chainOf f call)).map fun dialect => (dialect, siteOf f call)) = none := by
      refine List.findSome?_eq_none_iff.mpr fun call hcall => ?_
      have hclass := List.find?_eq_none.mp h call hcall
      rw [Option.not_isSome_iff_eq_none] at hclass
      rw [hclass, Option.map_none]
    simp only [selectAt, hnone]
  | some call =>
    obtain ⟨hclass, before, after, haround, hbefore⟩ := List.find?_eq_some_iff_append.mp h
    obtain ⟨dialect, hdialect⟩ := Option.isSome_iff_exists.mp hclass
    have hskipped : before.findSome? (fun call =>
        (classify? (chainOf f call)).map fun dialect => (dialect, siteOf f call)) = none := by
      refine List.findSome?_eq_none_iff.mpr fun d hd => ?_
      have hnot := hbefore d hd
      rw [Bool.not_eq_true', Option.isSome_eq_false_iff, Option.isNone_iff_eq_none] at hnot
      rw [hnot, Option.map_none]
    refine ⟨dialect, hdialect, ?_⟩
    simp only [selectAt, haround, List.findSome?_append, hskipped, List.findSome?_cons, hdialect, Option.map_some,
      Option.none_or]

theorem caret_selects_innermost (f : File) (hf : f.Sound) (hsolid : f.Solid) (offset : Nat) :
    (∃ found, Finds f offset (fun chain => (classify? chain).isSome) found ∧
      (∀ selected, select f (.caret offset) = .ok selected ↔ ∃ call dialect, found = some call ∧
        classify? (chainOf f call) = some dialect ∧ selected = ⟨dialect, [siteOf f call], false⟩) ∧
      ∀ rejection, select f (.caret offset) = .error rejection ↔ found = none ∧ rejection = .notClassified) ∧
    ∃ found, Finds f offset Stubbing.isMockedStaticStubbing found ∧
      selectMockedStatic? f (.caret offset) =
        found.map fun call => [⟨chainOf f call, (chainOf f call).span.start⟩] := by
  refine ⟨⟨_, finds_find? hf hsolid offset _, ?_⟩, ⟨_, finds_find? hf hsolid offset _, ?_⟩⟩
  · generalize hfound : (callsAround (f.placeAt offset)).find? _ = found
    have hselect := selectAt_of_find? hfound
    cases found with
    | none =>
      have hselect : select f (.caret offset) = .error .notClassified := hselect
      rw [hselect]
      refine ⟨fun selected => ⟨nofun, nofun⟩, fun rejection => ⟨fun h => ⟨rfl, (Except.error.inj h).symm⟩, ?_⟩⟩
      rintro ⟨-, rfl⟩
      rfl
    | some call =>
      obtain ⟨dialect, hdialect, hselect⟩ := hselect
      have hselect : select f (.caret offset) = .ok ⟨dialect, [siteOf f call], false⟩ := hselect
      rw [hselect]
      refine ⟨fun selected => ⟨fun h => ⟨call, dialect, rfl, hdialect, (Except.ok.inj h).symm⟩, ?_⟩,
        fun rejection => ⟨nofun, nofun⟩⟩
      rintro ⟨call', dialect', hcall, hdialect', rfl⟩
      obtain rfl := Option.some.inj hcall
      rw [Option.some.inj (hdialect.symm.trans hdialect')]
  · simp only [selectMockedStatic?, List.find?_map, Option.map_map]
    rfl

theorem caret_selects_innermost_lambda :
    let f := File.read
      "import org.mockito.*;class T\x7b\x7ba.b(()->\x7bMockito.when(m.c(1)).thenReturn(2);\x7d);\x7d\x7d"
    ∃ call dialect, select f (.caret 54) = .ok ⟨dialect, [siteOf f call], false⟩ ∧
      (f.callAt? 54).map (·.span) = some ⟨52, 58⟩ ∧ (chainOf f call).span = ⟨39, 73⟩ ∧
      Innermost f 54 (fun chain => (classify? chain).isSome) (chainOf f call) := by
  have hcaret := (caret_selects_innermost (File.read
    "import org.mockito.*;class T\x7b\x7ba.b(()->\x7bMockito.when(m.c(1)).thenReturn(2);\x7d);\x7d\x7d")
    (File.read_sound _) (File.read_solid _) 54).1
  generalize hfile : File.read _ = f at hcaret ⊢
  dsimp only at hcaret ⊢
  have hcomputed : (select f (.caret 54)).toOption.any (fun selected =>
      selected.sites.map (·.chain.span) == [⟨39, 73⟩]) = true ∧ (f.callAt? 54).map (·.span) = some ⟨52, 58⟩ := by
    subst hfile
    decide +kernel
  obtain ⟨found, hfinds, hok, -⟩ := hcaret
  obtain ⟨selected, hselected, hspans⟩ := (Option.any_eq_true _ _).mp hcomputed.1
  have hselect := eq_ok_of_toOption hselected
  obtain ⟨call, dialect, hfound, -, rfl⟩ := (hok selected).mp hselect
  refine ⟨call, dialect, hselect, hcomputed.2, ?_, hfinds.innermost call hfound⟩
  exact (List.cons.inj (beq_iff_eq.mp hspans)).1

end MockDialect.Conversion
