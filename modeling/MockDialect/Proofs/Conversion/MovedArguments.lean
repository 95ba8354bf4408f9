import MockDialect.Proofs.Chain.Reread
import MockDialect.Proofs.Conversion.Reheaded
import MockDialect.Proofs.Conversion.Sites
import MockDialect.Proofs.Edit.Kept

namespace MockDialect.Conversion

open Chain Edit Java Source Text
open Verification (Head)
open Verification.Dialect (inOrderVerifyStatic thenShould)

/-- Conversions that make a receiver of an argument: the argument, and what stays in the list. -/
inductive Moves : Verification.Dialect → Verification.Target → Chain → Arg → List Arg → Prop where
  | mocked {verify : Call} {rest : List Call} {mocked : Arg} {args : List Arg} (listed : verify.args = mocked :: args) :
      Moves .inOrderVerifyStatic .staticVerify ⟨verify :: rest⟩ mocked args
  | order {entry should : Call} {rest : List Call} {mock order : Arg} {mode : List Arg}
      (ordered : thenShould.isOrdered ⟨entry :: should :: rest⟩ = true) (mocks : entry.args = [mock])
      (listed : should.args = order :: mode) :
      Moves .thenShould .inOrderVerify ⟨entry :: should :: rest⟩ order (mock :: mode)

namespace Moves

variable {source : Verification.Dialect} {target : Verification.Target} {chain : Chain} {moved : Arg} {args : List Arg}
  {head : Head}

theorem exists_of_ordered (h : thenShould.begins chain = true) (hordered : thenShould.isOrdered chain = true) :
    ∃ moved args, Moves .thenShould .inOrderVerify chain moved args := by
  obtain ⟨calls⟩ := chain
  rcases calls with _ | ⟨entry, _ | ⟨should, rest⟩⟩
  · cases h
  · cases h
  · obtain ⟨hentry, -⟩ := Bool.and_eq_true_iff.mp h
    obtain ⟨mock, hmock⟩ : ∃ mock, entry.args = [mock] := by
      simp only [Verification.Dialect.isEntry, Bool.and_eq_true, beq_iff_eq] at hentry
      exact List.length_eq_one_iff.mp hentry.2
    cases hargs : should.args with
    | nil => simp [Verification.Dialect.isOrdered, Chain.get?, hargs] at hordered
    | cons order mode => exact ⟨order, mock :: mode, .order hordered hmock hargs⟩

theorem ne_nil (h : Moves source target chain moved args) (hhead : source.head? chain = some head) : args ≠ [] := by
  have hbegins := Verification.Dialect.begins_of_head? hhead
  cases h with
  | @mocked verify rest mocked args listed =>
    rintro rfl
    have hentry : inOrderVerifyStatic.isEntry verify = true := by
      cases rest <;> exact hbegins
    simp [Verification.Dialect.isEntry, listed] at hentry
  | order => exact List.cons_ne_nil _ _

theorem spell (h : Moves source target chain moved args) (hhead : source.head? chain = some head)
    (added : Option String) :
    target.spell head (head.inOrder.or added) = some (callText moved.text "verify" (args.map (·.text))) := by
  have hne := h.ne_nil hhead
  have hbegins := Verification.Dialect.begins_of_head? hhead
  unfold callText
  cases h with
  | @mocked verify rest mocked args listed =>
    have hentry : inOrderVerifyStatic.isEntry verify = true := by
      cases rest <;> exact hbegins
    unfold Verification.Dialect.head? at hhead
    rw [hbegins] at hhead
    obtain rfl := Option.some.inj hhead
    rcases args with _ | ⟨verification, _ | ⟨mode, _ | ⟨more, args⟩⟩⟩
    · exact absurd rfl hne
    · simp [Verification.Target.spell, Call.argText?, listed, String.append_assoc]
    · simp [Verification.Target.spell, Call.argText?, listed, String.append_assoc]
    · simp [Verification.Dialect.isEntry, listed] at hentry
  | @order entry should rest mock order mode ordered mocks listed =>
    have hshould : Verification.isShould should = true := (Bool.and_eq_true_iff.mp hbegins).2
    unfold Verification.Dialect.head? at hhead
    rw [hbegins] at hhead
    simp only [ordered] at hhead
    obtain rfl := Option.some.inj hhead
    rcases mode with _ | ⟨mode, _ | ⟨more, args⟩⟩
    · simp [Verification.Target.spell, Call.argText?, listed, mocks, String.append_assoc]
    · simp [Verification.Target.spell, Call.argText?, listed, mocks, String.append_assoc]
    · simp [Verification.isShould, listed] at hshould

theorem texts_of_order {mock order : String} {mode : List String} {rest : List (List String)}
    (h : Moves .thenShould .inOrderVerify chain moved args)
    (htexts : (chain.calls.map fun call => call.args.map (·.text)) = [mock] :: (order :: mode) :: rest) :
    moved.text = order ∧ args.map (·.text) = mock :: mode := by
  cases h with
  | order _ mocks listed => simp_all

end Moves

theorem rereadAt_of_callAt? {source receiver name : String} {args : List String} {place offset : Nat}
    (before after : List Char) {c : Cursor} {call : Call} {q : Qualifier}
    (hc : (File.read source).callAt? place = some c) (hcall : readCall? (File.read source) c.node = some call)
    (hsource : source.toList = before ++ (callText receiver name args).toList ++ after)
    (hoffset : width before = offset)
    (hbegun : (Cursor.outward c.node c.above).any (·.span.start == offset) = true)
    (hqualifier : call.qualifier = some q) (hreceived : q.span.stop = offset + width receiver.toList)
    (hnamed : call.nameSpan = ⟨q.span.stop + 1, q.span.stop + 1 + width name.toList⟩)
    (happlied : call.argsSpan.start = call.nameSpan.stop) :
    RereadAt (File.read source) offset receiver name args c call := by
  have hin := ((placeAt_in (File.read source) place).nearest hc).1
  obtain ⟨e, he, hstart⟩ := List.any_eq_true.mp hbegun
  rw [hreceived] at hnamed
  exact {
    stands := by
      rw [(File.read_sound source).text, File.source_read]
      exact ⟨before, after, hsource, hoffset⟩
    place := hin
    read := hcall
    begun := ⟨e, hin.outward e he, beq_iff_eq.mp hstart, hin.outward_within e he⟩
    received := ⟨q, hqualifier, hreceived⟩
    named := hnamed
    applied := by rw [happlied, hnamed] }

variable {source : Verification.Dialect} {target : Verification.Target} {moved : Arg} {args : List Arg}

/-- An argument is put in front of `.verify(` whatever it is. Wherever the new head is then read, `verify` is called on
the end of what was put there; and it is called on all of it, with the other arguments as they were, just if the
argument is read there as a primary expression and each of the others as no part of something longer. What the argument
was read as before does not decide it: `yield(x)` is a primary expression, and not where a statement begins with it. -/
theorem moved_argument_whole_iff (f : File) (base : String) {sites : List Site} {site : Site} {planned : Planned}
    (hsite : site ∈ sites) (hmoves : Moves source target site.chain moved args)
    (h : convertVerification f sites source target base = .ok planned) :
    ∃ edit ∈ planned.edits, edit.span.start = site.chain.span.start ∧
      edit.replacement = callText moved.text "verify" (args.map (·.text)) ∧
      (∀ (plan : Plan) made, edit ∈ plan.edits → plan.preview f.source = .ok made →
        ∃ offset, StandsAt made.toList offset edit.replacement) ∧
      ∀ after offset c call, RereadAt (File.read after) offset moved.text "verify" (args.map (·.text)) c call →
        (∃ start, offset ≤ start ∧
          call.qualifier.map (·.span) = some ⟨start, offset + width moved.text.toList⟩) ∧
        (AsWritten offset moved.text "verify" (args.map (·.text)) call ↔
          ReadAsPrimary (File.read after) ⟨offset, offset + width moved.text.toList⟩ ∧
            ∀ a ∈ laidOut (offset + width moved.text.toList + 8) (args.map (·.text)),
              ReadWhole (File.read after) a.2) := by
  obtain ⟨heads, edits, _, hreplaced, hedits⟩ := replaced_of_convertVerification h
  obtain ⟨head, -, hhead, e, he, hreplace⟩ := hreplaced.site hsite
  obtain ⟨text, last, htext, -, rfl⟩ := replaceHead_eq_ok.mp hreplace
  obtain rfl := Option.some.inj ((hmoves.spell hhead _).symm.trans htext)
  refine ⟨_, by rw [hedits]; exact List.mem_append_right _ he, rfl, rfl, fun plan made hmem hmade =>
    standsAt_of_preview hmade hmem, fun after offset c call hread => ⟨?_, ?_⟩⟩
  · obtain ⟨object, -, hqualifier, hstart, hstop, -⟩ := hread.exists_object
    exact ⟨object.span.start, hstart, by rw [hqualifier, ← hstop]; rfl⟩
  · have hargs : args.map (·.text) ≠ [] := by simpa using hmoves.ne_nil hhead
    exact hread.asWritten_iff hargs

theorem moved_argument_whole_iff_name :
    let before := "import org.mockito.*;class T\x7b\x7bBDDMockito.then(m).should(o,t).c();\x7d\x7d"
    let after := "import org.mockito.*;class T\x7b\x7bo.verify(m, t).c();\x7d\x7d"
    ∃ site planned edit c call,
      convertVerification (File.read before) [site] .thenShould .inOrderVerify "order" = .ok planned ∧
      edit ∈ planned.edits ∧ edit.replacement = "o.verify(m, t)" ∧
      RereadAt (File.read after) 30 "o" "verify" ["m", "t"] c call ∧ AsWritten 30 "o" "verify" ["m", "t"] call ∧
      ReadAsPrimary (File.read after) ⟨30, 31⟩ := by
  intro before after
  have hcomputed : ((File.read before).callAt? 50).any (fun place =>
      let site := siteOf (File.read before) place
      thenShould.begins site.chain && thenShould.isOrdered site.chain &&
        (site.chain.calls.map fun call => call.args.map (·.text)) == [["m"], ["o", "t"], []] &&
        (convertVerification (File.read before) [site] .thenShould .inOrderVerify "order").toOption.isSome &&
        ((File.read after).callAt? 34).any fun c => (readCall? (File.read after) c.node).any fun call =>
          (Cursor.outward c.node c.above).any (·.span.start == 30) && call.name == "verify" &&
          call.nameSpan == ⟨32, 38⟩ && call.argsSpan.start == 38 &&
          (call.qualifier.map fun q => (q.text, q.span)) == some ("o", ⟨30, 31⟩) &&
          (call.args.map fun a => (a.text, a.span)) == [("m", ⟨39, 40⟩), ("t", ⟨42, 43⟩)]) = true := by
    decide +kernel
  obtain ⟨place, -, hchecked⟩ := (Option.any_eq_true _ _).mp hcomputed
  rw [Bool.and_eq_true] at hchecked
  obtain ⟨hbefore, hafter⟩ := hchecked
  obtain ⟨c, hc, hafter⟩ := (Option.any_eq_true _ _).mp hafter
  obtain ⟨call, hcall, hafter⟩ := (Option.any_eq_true _ _).mp hafter
  simp only [Bool.and_eq_true, beq_iff_eq] at hbefore hafter
  obtain ⟨⟨⟨hbegins, hordered⟩, hargs⟩, hplanned⟩ := hbefore
  obtain ⟨⟨⟨⟨⟨hbegun, hname⟩, hnameSpan⟩, hargsStart⟩, hqualifier⟩, hcallArgs⟩ := hafter
  obtain ⟨planned, hplanned⟩ := Option.isSome_iff_exists.mp hplanned
  obtain ⟨q, hq, hspan⟩ := Option.map_eq_some_iff.mp hqualifier
  obtain ⟨-, hspan⟩ := Prod.mk.inj hspan
  obtain ⟨moved, args, hmoves⟩ := Moves.exists_of_ordered hbegins hordered
  have htexts := hmoves.texts_of_order hargs
  have hread : RereadAt (File.read after) 30 "o" "verify" ["m", "t"] c call :=
    rereadAt_of_callAt? "import org.mockito.*;class T\x7b\x7b".toList ".c();\x7d\x7d".toList hc hcall
      (by decide +kernel) (by decide) hbegun hq (by rw [hspan]; rfl) (by rw [hspan, hnameSpan]; rfl)
      (by rw [hargsStart, hnameSpan])
  have hwritten : AsWritten 30 "o" "verify" ["m", "t"] call := ⟨hname, hqualifier, hcallArgs⟩
  obtain ⟨edit, hedit, -, hreplacement, -, hreread⟩ :=
    moved_argument_whole_iff (File.read before) "order" (.head _) hmoves (eq_ok_of_toOption hplanned)
  rw [htexts.1, htexts.2] at hreplacement hreread
  exact ⟨_, planned, edit, c, call, eq_ok_of_toOption hplanned, hedit, hreplacement, hread, hwritten,
    ((hreread after 30 c call hread).2.mp hwritten).1⟩

example : let f := File.read "class T\x7b\x7byield(x).verify(m);\x7d\x7d"
    ((f.callAt? 20).bind fun c => (readCall? f c.node).bind (·.qualifierText?)) = some "(x)" := by
  decide +kernel

/-- A cast that was an argument becomes a cast of the whole chain, and `verify` is called on what it was a cast of. -/
theorem moved_cast_taken_apart :
    let before := "import org.mockito.*;class T\x7b\x7bBDDMockito.then(m).should((InOrder) o,t).c();\x7d\x7d"
    let after := "import org.mockito.*;class T\x7b\x7b(InOrder) o.verify(m, t).c();\x7d\x7d"
    ∃ site moved args planned c call,
      thenShould.isValid site.chain = true ∧ Moves .thenShould .inOrderVerify site.chain moved args ∧
      moved.text = "(InOrder) o" ∧
      convertVerification (File.read before) [site] .thenShould .inOrderVerify "order" = .ok planned ∧
      applyEdits (File.read before).text planned.edits = .ok after.toList ∧
      RereadAt (File.read after) 30 moved.text "verify" (args.map (·.text)) c call ∧
      call.qualifierText? = some "o" ∧
      (c.above.filter (·.kind == .castExpression)).map (File.read after).spell = ["(InOrder) o.verify(m, t).c()"] := by
  intro before after
  have hcomputed : ((File.read before).callAt? 50).any (fun place =>
      let site := siteOf (File.read before) place
      thenShould.isValid site.chain && thenShould.isOrdered site.chain &&
        (site.chain.calls.map fun call => call.args.map (·.text)) == [["m"], ["(InOrder) o", "t"], []] &&
        ((convertVerification (File.read before) [site] .thenShould .inOrderVerify "order").toOption.any fun planned =>
          (applyEdits (File.read before).text planned.edits).toOption == some after.toList) &&
        ((File.read after).callAt? 44).any fun c => (readCall? (File.read after) c.node).any fun call =>
          (Cursor.outward c.node c.above).any (·.span.start == 30) && call.nameSpan == ⟨42, 48⟩ &&
          call.argsSpan.start == 48 && (call.qualifier.map fun q => (q.text, q.span)) == some ("o", ⟨40, 41⟩) &&
          (c.above.filter (·.kind == .castExpression)).map (File.read after).spell ==
            ["(InOrder) o.verify(m, t).c()"]) = true := by
    decide +kernel
  obtain ⟨place, -, hchecked⟩ := (Option.any_eq_true _ _).mp hcomputed
  rw [Bool.and_eq_true] at hchecked
  obtain ⟨hbefore, hafter⟩ := hchecked
  obtain ⟨c, hc, hafter⟩ := (Option.any_eq_true _ _).mp hafter
  obtain ⟨call, hcall, hafter⟩ := (Option.any_eq_true _ _).mp hafter
  simp only [Bool.and_eq_true, beq_iff_eq] at hbefore hafter
  obtain ⟨⟨⟨hvalid, hordered⟩, hargs⟩, hplanned⟩ := hbefore
  obtain ⟨⟨⟨⟨hbegun, hnameSpan⟩, hargsStart⟩, hqualifier⟩, hcast⟩ := hafter
  obtain ⟨planned, hplanned, hmade⟩ := (Option.any_eq_true _ _).mp hplanned
  obtain ⟨q, hq, hspan⟩ := Option.map_eq_some_iff.mp hqualifier
  obtain ⟨htext, hspan⟩ := Prod.mk.inj hspan
  obtain ⟨moved, args, hmoves⟩ := Moves.exists_of_ordered (Bool.and_eq_true_iff.mp hvalid).1 hordered
  have htexts := hmoves.texts_of_order hargs
  refine ⟨siteOf (File.read before) place, moved, args, planned, c, call, hvalid, hmoves, htexts.1,
    eq_ok_of_toOption hplanned, eq_ok_of_toOption (beq_iff_eq.mp hmade), ?_, ?_, hcast⟩
  · rw [htexts.1, htexts.2]
    exact rereadAt_of_callAt? "import org.mockito.*;class T\x7b\x7b".toList ".c();\x7d\x7d".toList hc hcall
      (by decide +kernel) (by decide) hbegun hq (by rw [hspan]; rfl) (by rw [hspan, hnameSpan]; rfl)
      (by rw [hargsStart, hnameSpan])
  · rw [Call.qualifierText?, hq, Option.map_some, htext]

end MockDialect.Conversion
