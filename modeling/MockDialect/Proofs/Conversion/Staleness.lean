import MockDialect.Edit.Document
import MockDialect.Proofs.Conversion.Merging
import MockDialect.Proofs.Creation.Moves
import MockDialect.Proofs.Text.Absorption

namespace MockDialect.Edit

open Text

variable {text : String} {plan : Plan} {d : Document} {expected found : UInt64}

theorem blame_ne_stale (text : List Char) (done : Nat) (e : Edit) : blame text done e ≠ .stale expected found := by
  intro h
  rw [blame] at h
  split at h
  · cases h
  · cases h

theorem preview_ne_stale (plan : Plan) (text : String) : plan.preview text ≠ .error (.stale expected found) := by
  intro h
  rw [Plan.preview] at h
  cases hresult : applyEdits text.toList plan.edits with
  | ok result =>
    rw [hresult] at h
    cases h
  | error error =>
    rw [hresult] at h
    obtain ⟨front, e, -, -, -, -, hblame⟩ := applyEdits_eq_error_iff.mp hresult
    exact blame_ne_stale text.toList (reached 0 front) e (hblame.symm.trans (Except.error.inj h))

theorem Document.apply_of_revision_ne (h : d.revision ≠ plan.revision) :
    d.apply plan = (.error (.stale plan.revision d.revision), d) := by
  have hplan : plan.apply d.text = .error (.stale plan.revision d.revision) := if_neg h
  rw [apply, hplan]

theorem Document.apply_ne_stale (h : d.revision = plan.revision) :
    (d.apply plan).1 ≠ .error (.stale expected found) := by
  intro hanswer
  have hplan : plan.apply d.text = plan.preview d.text := if_pos h
  rw [apply, hplan] at hanswer
  cases hpreview : plan.preview d.text with
  | ok result =>
    rw [hpreview] at hanswer
    cases hanswer
  | error error =>
    rw [hpreview] at hanswer
    obtain rfl := Except.error.inj hanswer
    exact preview_ne_stale plan d.text hpreview

theorem revision_of_apply {result : String} (h : plan.apply text = .ok result) :
    plan.revision = Document.revision ⟨text⟩ := by
  by_contra hne
  have hplan : plan.apply text = .error (.stale plan.revision (Fingerprint.ofText text)) := if_neg (Ne.symm hne)
  rw [hplan] at h
  cases h

end MockDialect.Edit

namespace MockDialect.Conversion

open Edit Source Text
open Fingerprint (DifferInByte ofParts)

variable {text : String} {plan : Plan}

/-- The ways in which a plan is made for a text: of edits at hand, or by one of the planners. -/
inductive MadeFor (text : String) (plan : Plan) : Prop where
  | edits {edits : List Edit} {summary : String} (h : Plan.make (Document.revision ⟨text⟩) edits summary = .ok plan)
  | conversion {p : Planner} {selection : Selection} {target : Target} (reads : p.file = File.read text)
      (h : p.plan selection target = .ok plan)
  | merge {p : Planner} {selection : Selection} {wanted : Option Stubbing.ThrowForm} (reads : p.file = File.read text)
      (h : p.planMerge selection wanted = .ok plan)
  | throwToggle {p : Planner} {selection : Selection} (reads : p.file = File.read text)
      (h : p.planThrowToggle selection = .ok plan)
  | toField {selection : Selection} (h : Creation.planToField (File.read text) selection = .ok plan)
  | toCall {selection : Selection} {method : String}
      (h : Creation.planToCall (File.read text) selection method = .ok plan)
  | expand {selection : Selection} (h : Creation.planExpand (File.read text) selection = .ok plan)

theorem revision_of_applicable {f : File} {answer : Except Failure Plan} (hfile : f = File.read text)
    (h : f.Regular → Applicable f answer) (hplan : answer = .ok plan) :
    plan.revision = Document.revision ⟨text⟩ := by
  subst hfile
  obtain ⟨result, hresult⟩ := (h (File.read_sound text).regular).applies plan hplan
  rw [File.source_read] at hresult
  exact revision_of_apply hresult

theorem MadeFor.revision (h : MadeFor text plan) : plan.revision = Document.revision ⟨text⟩ := by
  cases h with
  | edits h => exact congrArg Plan.revision (eq_of_make h)
  | conversion reads h => exact revision_of_applicable reads (applicable_plan · _ _) h
  | merge reads h => exact revision_of_applicable reads (applicable_planMerge · _ _) h
  | throwToggle reads h => exact revision_of_applicable reads (applicable_planThrowToggle · _) h
  | toField h => exact revision_of_applicable rfl (Creation.applicable_planToField · _) h
  | toCall h => exact revision_of_applicable rfl (Creation.applicable_planToCall · _ _) h
  | expand h => exact revision_of_applicable rfl (Creation.applicable_planExpand · _) h

/-- The fingerprint of parts is that of all their bytes in a row, and no two rows of bytes that differ in a single byte
have the same one. So a plan for a text, however it was made, is refused as out of date by every document whose text
differs from it in a single byte, and the document stays as it is; a document that still holds the text never refuses
it as out of date. -/
theorem single_byte_change_refused :
    (∀ parts : List (List UInt8), ofParts parts = ofParts [parts.flatten]) ∧
    (∀ (before after : List UInt8) (b c : UInt8), b ≠ c →
      ofParts [before ++ [b] ++ after] ≠ ofParts [before ++ [c] ++ after]) ∧
    (∀ (text : String) (plan : Plan), MadeFor text plan → plan.revision = Document.revision ⟨text⟩) ∧
    ∀ (text : String) (plan : Plan), plan.revision = Document.revision ⟨text⟩ →
      (∀ expected found, (Document.apply ⟨text⟩ plan).1 ≠ .error (.stale expected found)) ∧
      ∀ changed : String, DifferInByte text changed → Document.apply ⟨changed⟩ plan =
        (.error (.stale (Document.revision ⟨text⟩) (Document.revision ⟨changed⟩)), ⟨changed⟩) := by
  refine ⟨Fingerprint.ofParts_eq_ofBytes, ?_, fun _ _ => MadeFor.revision, ?_⟩
  · intro before after b c h
    exact Fingerprint.ofBytes_ne_of_byte_ne before after h
  · intro text plan hrevision
    refine ⟨fun _ _ => Document.apply_ne_stale hrevision.symm, ?_⟩
    intro changed hchanged
    have hne : Document.revision ⟨changed⟩ ≠ plan.revision := by
      rw [hrevision]
      exact hchanged.ofText_ne
    rw [← hrevision]
    exact Document.apply_of_revision_ne hne

theorem single_byte_change_refused_accent :
    let text := "import org.mockito.*;class T\x7b\x7bMockito.when(a.b('é')).thenReturn(2);\x7d\x7d"
    let changed := "import org.mockito.*;class T\x7b\x7bMockito.when(a.b('è')).thenReturn(2);\x7d\x7d"
    DifferInByte text changed ∧
      ∃ plan, Planner.plan ⟨File.read text, ⟨none⟩, "order"⟩ (.caret 40) (.stubbing .bddWill) = .ok plan ∧
        Document.apply ⟨changed⟩ plan =
          (.error (.stale (Document.revision ⟨text⟩) (Document.revision ⟨changed⟩)), ⟨changed⟩) := by
  intro text changed
  have hdiffer : DifferInByte text changed :=
    ⟨text.toUTF8.toList.take 49, text.toUTF8.toList.drop 50, 0xA9, 0xA8, by decide, by decide +kernel,
      by decide +kernel⟩
  have hcomputed : (Planner.plan ⟨File.read text, ⟨none⟩, "order"⟩ (.caret 40) (.stubbing .bddWill)).isOk = true := by
    decide +kernel
  obtain ⟨-, -, hmade, hrefused⟩ := single_byte_change_refused
  cases hplan : Planner.plan ⟨File.read text, ⟨none⟩, "order"⟩ (.caret 40) (.stubbing .bddWill) with
  | error failure =>
    rw [hplan] at hcomputed
    cases hcomputed
  | ok plan =>
    have hrevision := hmade text plan (.conversion rfl hplan)
    exact ⟨hdiffer, plan, rfl, (hrefused text plan hrevision).2 changed hdiffer⟩

end MockDialect.Conversion
