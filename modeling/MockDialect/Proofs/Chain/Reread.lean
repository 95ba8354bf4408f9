import MockDialect.Proofs.Chain.Arguments
import MockDialect.Proofs.Java.Listing

namespace MockDialect.Chain

open Java Source Text

/-- A call as it is put together from texts. -/
def callText (receiver name : String) (args : List String) : String :=
  receiver ++ "." ++ name ++ "(" ++ ", ".intercalate args ++ ")"

/-- Texts one after the other from an offset on, with a comma and a blank between each two, and their ranges. -/
def laidOut (offset : Nat) : List String → List (String × Span)
  | [] => []
  | t :: ts => (t, ⟨offset, offset + width t.toList⟩) :: laidOut (offset + width t.toList + 2) ts

/-- A call that was put together from texts is read: it stands in the file, something that begins with it holds a
call, and of this call the dot, the name and the opening parenthesis are those that were written. -/
structure RereadAt (f : File) (offset : Nat) (receiver name : String) (args : List String) (c : Cursor) (call : Call) :
    Prop where
  stands : StandsAt f.text offset (callText receiver name args)
  place : Cursor.In f.tree c
  read : readCall? f c.node = some call
  begun : ∃ e, Cursor.In f.tree e ∧ e.span.start = offset ∧ e.node.Within c.node
  received : ∃ q ∈ call.qualifier, q.span.stop = offset + width receiver.toList
  named : call.nameSpan = ⟨offset + width receiver.toList + 1, offset + width receiver.toList + 1 + width name.toList⟩
  applied : call.argsSpan.start = offset + width receiver.toList + 1 + width name.toList

/-- The parts of the call are the texts that it was put together from, where they were put. -/
structure AsWritten (offset : Nat) (receiver name : String) (args : List String) (call : Call) : Prop where
  named : call.name = name
  received : (call.qualifier.map fun q => (q.text, q.span)) = some (receiver, ⟨offset, offset + width receiver.toList⟩)
  applied : (call.args.map fun a => (a.text, a.span)) =
    laidOut (offset + width receiver.toList + width name.toList + 2) args

/-- A primary expression is read from just one offset to the other. -/
def ReadAsPrimary (f : File) (span : Span) : Prop :=
  ∃ c, Cursor.In f.tree c ∧ c.span = span ∧ c.kind.isPrimary = true

/-- Something is read from just one offset to the other, and nothing longer from the first. -/
structure ReadWhole (f : File) (span : Span) : Prop where
  node : ∃ c, Cursor.In f.tree c ∧ c.span = span ∧ c.kind ≠ .token ∧ c.node.isComment = false
  longest : ∀ c, Cursor.In f.tree c → c.span.start = span.start → c.span.stop ≤ span.stop

theorem standsAt_cons {text : List Char} {offset : Nat} {t : String} {ts : List String}
    (h : StandsAt text offset (", ".intercalate (t :: ts) ++ ")")) :
    StandsAt text offset t ∧ (ts = [] ∧ CharAt text (offset + width t.toList) ')' ∨
      ts ≠ [] ∧ CharAt text (offset + width t.toList) ',' ∧
        Gap text (offset + width t.toList + 1) (offset + width t.toList + 2) ∧
        StandsAt text (offset + width t.toList + 2) (", ".intercalate ts ++ ")")) := by
  cases ts with
  | nil =>
    rw [String.intercalate_singleton] at h
    exact ⟨h.inner [] t [')'] (by simp), .inl ⟨rfl, h.charAt t.toList ')' [] (by simp)⟩⟩
  | cons u us =>
    rw [String.intercalate_cons_cons] at h
    have hlater := h.inner (t.toList ++ ", ".toList) (", ".intercalate (u :: us) ++ ")") [] (by simp)
    rw [width_append, ← Nat.add_assoc] at hlater
    have hsign := h.inner t.toList ", " (", ".intercalate (u :: us) ++ ")").toList (by simp)
    refine ⟨h.inner [] t (", ".toList ++ (", ".intercalate (u :: us) ++ ")").toList) (by simp),
      .inr ⟨nofun, hsign.charAt [] ',' [' '] rfl, ?_, hlater⟩⟩
    obtain ⟨before, after, rfl, hblank⟩ := hsign.inner [','] " " [] rfl
    have hgap := (Gap.refl (cuts_middle before " ".toList after).1).extend (by simp [Lexeme.isSeparator])
    rw [width_append, hblank] at hgap
    exact hgap

theorem standsAt_callText {text : List Char} {offset : Nat} {receiver name : String} {args : List String}
    (h : StandsAt text offset (callText receiver name args)) : StandsAt text offset receiver ∧
      StandsAt text (offset + width receiver.toList + 1) name ∧
      StandsAt text (offset + width receiver.toList + width name.toList + 2) (", ".intercalate args ++ ")") := by
  have hname := h.inner (receiver.toList ++ ['.']) name ("(" ++ ", ".intercalate args ++ ")").toList (by simp [callText])
  have hargs := h.inner (receiver.toList ++ '.' :: name.toList ++ ['(']) (", ".intercalate args ++ ")") []
    (by simp [callText])
  have hwidth : width (receiver.toList ++ '.' :: name.toList ++ ['(']) =
      width receiver.toList + width name.toList + 2 := by
    rw [width_append, width_append]
    change width receiver.toList + (1 + width name.toList) + 1 = _
    omega
  rw [width_append, ← Nat.add_assoc] at hname
  rw [hwidth, ← Nat.add_assoc, ← Nat.add_assoc] at hargs
  refine ⟨h.inner [] receiver ("." ++ name ++ "(" ++ ", ".intercalate args ++ ")").toList ?_, hname, hargs⟩
  simp [callText]

section

variable {source : String} {list : Node} {above : List Node} (hlist : Cursor.In (File.read source).tree ⟨list, above⟩)

include hlist

theorem ReadWhole.inked {span : Span} (h : ReadWhole (File.read source) span) (hbehind : list.span.start < span.start) :
    ∃ kind, Inked (File.read source).text kind span := by
  obtain ⟨⟨d, hd, rfl, -, hcode⟩, -⟩ := h
  cases hd with
  | root =>
    have hinside := ((File.read_sound source).placed.wellFormed.within hlist.within).2.1
    exact absurd hinside (Nat.not_le_of_lt hbehind)
  | down hup hmem => exact ⟨_, File.read_inked source (.down hup hmem) hcode⟩

theorem span_of_readWhole {n : Node} {span : Span} (hn : n ∈ list.children) (hlt : n.span.start < n.span.stop)
    (hbehind : list.span.start < span.start) (hstart : n.span.start = span.start)
    (h : ReadWhole (File.read source) span) : n.kind ≠ .token ∧ n.isComment = false ∧ n.span = span := by
  have hf := File.read_sound source
  obtain ⟨_, hink⟩ := h.inked hlist hbehind
  obtain ⟨⟨d, hd, rfl, hkind, hcode⟩, hlongest⟩ := h
  have hin : Cursor.In (File.read source).tree ⟨n, list :: above⟩ := .down hlist hn
  have hwithin : n.Within d.node :=
    hin.within_of_meets hf.placed.wellFormed hd (hstart ▸ hlt) (hstart ▸ hink.lt) (.inl hbehind)
  have hleaf (hbare : n.kind.isBare = true) : d.node = n := hwithin.eq_of_leaf ((hin.all hf.formed).self.bare hbare)
  refine ⟨fun htoken => hkind ?_, Bool.eq_false_iff.mpr fun hcomment => ?_, ?_⟩
  · rw [Cursor.kind, hleaf (by rw [htoken]; rfl), htoken]
  · have hbare : n.kind.isBare = true := Decidable.byContradiction fun hbare =>
      Bool.false_ne_true ((Kind.isComment_of_isBare (Bool.eq_false_iff.mpr hbare)).symm.trans hcomment)
    rw [hleaf hbare, hcomment] at hcode
    cases hcode
  · have hinside := ((hf.placed.wellFormed.within hin.within).1.within hwithin).2.2
    exact Span.ext hstart (Nat.le_antisymm (hlongest _ hin hstart) hinside)

theorem readWhole_of_mem_codeChildren {n : Node} (hn : n ∈ list.codeChildren)
    (hbehind : list.span.start < n.span.start) : ReadWhole (File.read source) n.span := by
  have hf := File.read_sound source
  have hin : Cursor.In (File.read source).tree ⟨n, list :: above⟩ := .down hlist (mem_children_of_mem_codeChildren hn)
  obtain ⟨hnamed, hcode⟩ := List.mem_filter.mp hn
  rw [Bool.not_eq_true'] at hcode
  have hlt := (File.read_inked source hin hcode).lt
  refine ⟨⟨_, hin, rfl, bne_iff_ne.mp (List.mem_filter.mp hnamed).2, hcode⟩, fun d hd hstart => ?_⟩
  by_cases hmeets : n.span.start < d.span.stop
  · have hwithin := hin.within_of_meets hf.placed.wellFormed hd (hstart ▸ hlt) hmeets (.inl (hstart ▸ hbehind))
    exact ((hf.placed.wellFormed.within hin.within).1.within hwithin).2.2
  · omega

theorem head_of_readWhole {n : Node} {rows : List Node} {lo hi : Nat} {span : Span} (hn : n ∈ list.children)
    (hspread : Spread (File.read source).text lo (n :: rows) hi) (hlo : list.span.start < lo)
    (hgap : Gap (File.read source).text lo span.start) (h : ReadWhole (File.read source) span) :
    n.kind ≠ .token ∧ n.isComment = false ∧ n.span = span := by
  have hbehind : list.span.start < span.start := Nat.lt_of_lt_of_le hlo hgap.le
  obtain ⟨_, hink⟩ := h.inked hlist hbehind
  refine span_of_readWhole hlist hn hspread.2.1.lt hbehind ?_ h
  -- the child begins with ink and so does the range, and there is none before either
  obtain ⟨c, hc, hcink, -⟩ := hspread.2.1.begins
  obtain ⟨d, hd, hdink, -⟩ := hink.begins
  have hle := hspread.1.not_inside hd hdink
  have hge := hgap.not_inside hc hcink
  have hlow := hspread.1.le
  have hlow' := hgap.le
  omega

theorem rows_of_readWhole {args : List String} {rows : List Node} {lo hi offset : Nat} (hargs : args ≠ [])
    (hrows : ∀ n ∈ rows, n ∈ list.children) (hlisting : Listing (File.read source).text false rows)
    (hspread : Spread (File.read source).text lo rows hi) (hlo : list.span.start < lo)
    (hgap : Gap (File.read source).text lo offset)
    (hstands : StandsAt (File.read source).text offset (", ".intercalate args ++ ")"))
    (hwhole : ∀ a ∈ laidOut offset args, ReadWhole (File.read source) a.2) :
    (((rows.filter (·.kind != .token)).filter (!·.isComment)).map fun n => ((File.read source).spell n, n.span)) =
      laidOut offset args := by
  induction args generalizing rows lo offset with
  | nil => exact absurd rfl hargs
  | cons t ts ih =>
    have hfirst := hwhole _ (.head _)
    have hlow := hgap.le
    cases hlisting with
    | close sign =>
      obtain ⟨hkind, -⟩ := head_of_readWhole hlist (hrows _ (.head _)) hspread hlo hgap hfirst
      exact absurd sign.kind hkind
    | remark comment _ =>
      obtain ⟨-, hcode, -⟩ := head_of_readWhole hlist (hrows _ (.head _)) hspread hlo hgap hfirst
      rw [hcode] at comment
      cases comment
    | @item n ns code kind next =>
      obtain ⟨-, -, hspan⟩ := head_of_readWhole hlist (hrows _ (.head _)) hspread hlo hgap hfirst
      have hrest : Spread (File.read source).text (offset + width t.toList) ns hi := by
        have hrest := hspread.2.2
        rwa [hspan] at hrest
      have hnamed : (n.kind != .token) = true := bne_iff_ne.mpr kind
      obtain ⟨hfirstStands, ⟨rfl, hclose⟩ | ⟨hts, hcomma, hblank, hlater⟩⟩ := standsAt_cons hstands
      · obtain ⟨last, rest, rfl, hlast, -, ⟨-, rfl⟩ | ⟨hsign, -⟩⟩ := next.next hrest hclose rfl (by decide)
        · simp [hnamed, code, hlast, laidOut, File.spell, File.spanText, hfirstStands.slice, hspan]
        · cases hsign
      · obtain ⟨comma, rest, rfl, hkind, hstop, ⟨hsign, -⟩ | ⟨-, hlisting⟩⟩ := next.next hrest hcomma rfl (by decide)
        · cases hsign
        · have hothers := ih hts (fun m hm => hrows m (.tail _ (.tail _ hm))) hlisting (hstop ▸ hrest.2.2) (by omega)
            hblank hlater fun a ha => hwhole a (.tail _ ha)
          rw [laidOut, ← hothers]
          simp [hnamed, code, hkind, File.spell, File.spanText, hfirstStands.slice, hspan]

end

theorem texts_of_readCall? {f : File} {n list : Node} {call : Call} (h : readCall? f n = some call)
    (hlist : n.child? .arguments = some list) :
    (call.args.map fun a => (a.text, a.span)) = list.codeChildren.map fun m => (f.spell m, m.span) := by
  rw [args_of_readCall? h hlist, List.map_map]
  exact List.map_congr_left fun m _ => Prod.ext (text_readArg m) (span_readArg m)

namespace RereadAt

variable {source receiver name : String} {offset : Nat} {args : List String} {c : Cursor} {call : Call}
  (h : RereadAt (File.read source) offset receiver name args c call)

include h

theorem isCall : c.isCall = true := (readCall?_eq h.read).1

theorem exists_object : ∃ object, c.node.child? .object = some object ∧
    call.qualifier = some (qualifierOf (File.read source) object) ∧ offset ≤ object.span.start ∧
    object.span.stop = offset + width receiver.toList ∧ object.span.stop < c.span.stop := by
  have hf := File.read_sound source
  obtain ⟨-, id, -, hname, -, -, -, hid, -, -, hqualifier, -⟩ := readCall?_eq h.read
  obtain ⟨q, hq, hstop⟩ := h.received
  obtain ⟨object, hobject, rfl⟩ := Option.map_eq_some_iff.mp (hqualifier.symm.trans hq)
  obtain ⟨e, he, rfl, hwithin⟩ := h.begun
  have hc := hf.placed.wellFormed.within h.place.within
  have hinside := ((hf.placed.wellFormed.within he.within).1.within hwithin).2.1
  have hchild := (hc.1.child (Node.mem_children_of_child? hobject)).2.1
  have hid' := (hc.1.child (Node.mem_children_of_child? hname)).2.2
  have hnamed := congrArg Span.stop (hid.symm.trans h.named)
  refine ⟨object, hobject, hq, Nat.le_trans hinside hchild, hstop, ?_⟩
  dsimp only [qualifierOf] at hstop hnamed
  simp only [Cursor.span]
  omega

theorem exists_list : ∃ list rows, c.node.child? .arguments = some list ∧
    Cursor.In (File.read source).tree ⟨list, c.node :: c.above⟩ ∧ (∀ n ∈ rows, n ∈ list.children) ∧
    list.codeChildren = (rows.filter (·.kind != .token)).filter (!·.isComment) ∧
    Listing (File.read source).text false rows ∧
    Spread (File.read source).text (list.span.start + 1) rows list.span.stop ∧
    list.span.start + 1 = offset + width receiver.toList + width name.toList + 2 := by
  have hf := File.read_sound source
  have hkind := Cursor.kind_ne_program h.isCall
  obtain ⟨-, -, list, -, hlist, -, -, -, hargsSpan, -⟩ := readCall?_eq h.read
  have hmem := Node.mem_children_of_child? hlist
  obtain ⟨first, rows, hchildren, hopen, hlisting⟩ := ((File.read_origin source h.place hkind).child hmem).self.listing
    ((h.place.all hf.formed).child hmem).self (kind_of_arguments hf h.place.within h.isCall hlist)
  have hspread := ((File.read_packed source h.place hkind).child hmem).self (by simp [hchildren])
  have hbegins := ((File.read_solid source h.place hkind).child hmem).self.begins first (by simp [hchildren])
  rw [hchildren] at hspread
  have hrest := hspread.2.2
  rw [hopen.stop, hbegins] at hrest
  refine ⟨list, rows, hlist, .down h.place hmem, fun n hn => hchildren ▸ .tail _ hn, ?_, hlisting, hrest, ?_⟩
  · rw [Node.codeChildren, Node.namedChildren, hchildren, List.filter_cons_of_neg (by simp [hopen.kind])]
  · have happlied := (congrArg Span.start hargsSpan).symm.trans h.applied
    omega

theorem object_readAsPrimary {object : Node} (hobject : c.node.child? .object = some object) :
    ReadAsPrimary (File.read source) object.span := by
  have hmem := Node.mem_children_of_child? hobject
  have horigin := (File.read_origin source h.place (Cursor.kind_ne_program h.isCall)).self
  exact ⟨⟨object, c.node :: c.above⟩, .down h.place hmem, rfl,
    horigin.received object hmem (Node.role_of_child? hobject)⟩

theorem span_of_readAsPrimary {object : Node} (hobject : c.node.child? .object = some object)
    (hprimary : ReadAsPrimary (File.read source) ⟨offset, offset + width receiver.toList⟩) :
    object.span = ⟨offset, offset + width receiver.toList⟩ := by
  have hf := File.read_sound source
  obtain ⟨_, hsame, -, hstart, hstop, hlt⟩ := h.exists_object
  obtain rfl := Option.some.inj (hsame.symm.trans hobject)
  obtain ⟨d, hd, hspan, -⟩ := hprimary
  have hmem := Node.mem_children_of_child? hobject
  have hin : Cursor.In (File.read source).tree ⟨_, c.node :: c.above⟩ := .down h.place hmem
  have hsolid := ((File.read_solid source h.place (Cursor.kind_ne_program h.isCall)).child hmem).self.nonempty
  -- the two end together, and what was written does not reach to the end of the call
  have hdStart : d.span.start = offset := congrArg Span.start hspan
  have hdStop : d.span.stop = _ := (congrArg Span.stop hspan).trans hstop.symm
  have hwithin := hin.within_of_meets hf.placed.wellFormed hd (by omega) (hdStop ▸ hsolid) (.inr (hdStop ▸ hlt))
  have hinside := ((hf.placed.wellFormed.within hin.within).1.within hwithin).2.1
  exact Span.ext (Nat.le_antisymm (Nat.le_trans hinside (Nat.le_of_eq hdStart)) hstart) hstop

theorem applied_iff (hargs : args ≠ []) :
    (call.args.map fun a => (a.text, a.span)) = laidOut (offset + width receiver.toList + width name.toList + 2) args ↔
      ∀ a ∈ laidOut (offset + width receiver.toList + width name.toList + 2) args, ReadWhole (File.read source) a.2 := by
  obtain ⟨list, rows, hlist, hin, hrows, hcode, hlisting, hspread, hoffset⟩ := h.exists_list
  obtain ⟨-, -, hstands⟩ := standsAt_callText h.stands
  rw [← hoffset] at hstands ⊢
  rw [texts_of_readCall? h.read hlist]
  constructor
  · intro happlied a ha
    rw [← happlied] at ha
    obtain ⟨m, hm, rfl⟩ := List.mem_map.mp ha
    refine readWhole_of_mem_codeChildren hin hm (hspread.le_start ?_)
    rw [hcode] at hm
    exact List.mem_of_mem_filter (List.mem_of_mem_filter hm)
  · intro hwhole
    rw [hcode]
    exact rows_of_readWhole hin hargs hrows hlisting hspread (Nat.lt_succ_self _) (.refl hstands.isBoundary) hstands
      hwhole

theorem asWritten_iff (hargs : args ≠ []) : AsWritten offset receiver name args call ↔
    ReadAsPrimary (File.read source) ⟨offset, offset + width receiver.toList⟩ ∧
      ∀ a ∈ laidOut (offset + width receiver.toList + width name.toList + 2) args, ReadWhole (File.read source) a.2 := by
  obtain ⟨object, hobject, hqualifier, -⟩ := h.exists_object
  constructor
  · intro hwritten
    have hspan : object.span = ⟨offset, offset + width receiver.toList⟩ := by
      have hreceived := hwritten.received
      rw [hqualifier] at hreceived
      exact congrArg Prod.snd (Option.some.inj hreceived)
    exact ⟨hspan ▸ h.object_readAsPrimary hobject, (h.applied_iff hargs).mp hwritten.applied⟩
  · rintro ⟨hprimary, hwhole⟩
    obtain ⟨hreceiver, hname, -⟩ := standsAt_callText h.stands
    obtain ⟨-, id, -, -, -, hid, -, hidSpan, -⟩ := readCall?_eq h.read
    refine ⟨?_, ?_, (h.applied_iff hargs).mpr hwhole⟩
    · rw [hid, File.spell, File.spanText, ← hidSpan, h.named]
      exact hname.slice
    · rw [hqualifier, Option.map_some, qualifierOf, File.spell, File.spanText, h.span_of_readAsPrimary hobject hprimary]
      exact congrArg (fun text => some (text, _)) hreceiver.slice

end RereadAt

end MockDialect.Chain
