import MockDialect.Proofs.Conversion.Naming
import MockDialect.Proofs.Creation.Fields

namespace MockDialect.Creation

open Conversion Edit Java Settings Source Text

variable {f : File}

theorem isAsciiNameStart_toLower {c : Char} (h : isAsciiNameStart c = true) :
    c.toNat < 128 ∧ isAsciiNameStart c.toLower = true := by
  have hall : ∀ n < 128, isAsciiNameStart (Char.ofNat n) = true → isAsciiNameStart (Char.ofNat n).toLower = true := by
    decide
  have hascii : c.toNat < 128 := by
    unfold isAsciiNameStart Char.isAlpha Char.isUpper Char.isLower at h
    simp only [Bool.or_eq_true, Bool.and_eq_true, decide_eq_true_eq, UInt32.le_iff_toNat_le, beq_iff_eq] at h
    rcases h with ((h | h) | rfl) | rfl
    · exact Nat.lt_of_le_of_lt h.2 (by decide)
    · exact Nat.lt_of_le_of_lt h.2 (by decide)
    · decide
    · decide
  have hc := hall c.toNat hascii
  rw [Char.ofNat_toNat] at hc
  exact ⟨hascii, hc h⟩

theorem isAsciiName_lowerCamel {type : String} (h : isAsciiName (simpleName (rawType type)) = true) :
    isAsciiName (lowerCamel type) = true := by
  unfold isAsciiName at h
  unfold lowerCamel
  cases hchars : (simpleName (rawType type)).toList with
  | nil =>
    rw [hchars] at h
    cases h
  | cons c cs =>
    rw [hchars, Bool.and_eq_true] at h
    obtain ⟨hascii, hstart⟩ := isAsciiNameStart_toLower h.1
    simp only [lowerChar, if_pos hascii, isAsciiName, String.toList_ofList, List.singleton_append, hstart, h.2,
      Bool.and_self]

/-- Where a creation call does not initialize a variable of its own, one name is written in its place and in the
field. It is new to the file. It can name a variable just if the name made from the type has the form of one, as it
has for every type with a name of this form, and if it is no reserved word or has a number put behind it. -/
theorem introduced_field_named_iff {selection : Selection} {plan : Plan} {c : CreationCall}
    (hplan : planToField f selection = .ok plan) (hcall : creationCall? f selection = some c)
    (hvalue : localVariable? f c.place = none) :
    ∃ body type created, c.place.enclosing? .classBody = some body ∧ Creates f c type created ∧
      let base := lowerCamel type
      let name := freshName f.identifiers base
      plan.edits.Perm ([replace c.place.span name,
        insertField f.text body.node created.marker (fieldText type name created.initializer)] ++
          (planImports f.imports [c.kind.markerClass]).toList) ∧
      name ∉ f.identifiers ∧
      (checkVariableName name = .ok () ↔
        isAsciiName base = true ∧ (base ∈ f.identifiers ∨ isReserved base = false ∧ base ≠ "var")) ∧
      (isAsciiName (simpleName (rawType type)) = true → isAsciiName base = true) := by
  obtain ⟨d, body, type, created, removal, hd, hbody, hcreated, hremoval, hedits⟩ := edits_of_planToField hplan
  obtain rfl := Option.some.inj (hcall.symm.trans hd)
  have hname : fieldName f c type = freshName f.identifiers (lowerCamel type) := by rw [fieldName, hvalue]
  have htype : fieldType f c type = type := by rw [fieldType, hvalue]
  rw [hremoval hvalue, hname, htype] at hedits
  exact ⟨body, type, created, hbody, hcreated, hedits, freshName_not_mem _ _, checkVariableName_freshName_iff _ _,
    isAsciiName_lowerCamel⟩

theorem introduced_field_named_iff_numbered :
    let f := File.read "import org.mockito.*;class T\x7bvoid b()\x7bf(Mockito.mock(a.B.class));\x7d\x7d"
    ∃ plan c, planToField f (.caret 50) = .ok plan ∧ creationCall? f (.caret 50) = some c ∧
      localVariable? f c.place = none ∧ replace c.place.span "b2" ∈ plan.edits ∧ "b2" ∉ f.identifiers ∧
      checkVariableName "b2" = .ok () := by
  generalize hfile : File.read _ = f
  dsimp only
  have hcomputed : ((planToField f (.caret 50)).toOption.any fun plan => (creationCall? f (.caret 50)).any fun c =>
      (localVariable? f c.place).isNone && c.kind == .mock &&
        (ofMockCall f c.place.node).toOption.any (·.1 == "a.B") && f.identifiers.contains (lowerCamel "a.B") &&
        freshName f.identifiers (lowerCamel "a.B") == "b2") = true := by
    subst hfile
    decide +kernel
  obtain ⟨plan, hplan, hcomputed⟩ := (Option.any_eq_true _ _).mp hcomputed
  obtain ⟨c, hc, hcomputed⟩ := (Option.any_eq_true _ _).mp hcomputed
  simp only [Bool.and_eq_true, Option.isNone_iff_eq_none, beq_iff_eq, List.contains_iff_mem] at hcomputed
  obtain ⟨⟨⟨⟨hvalue, hkind⟩, hmocked⟩, htaken⟩, hname⟩ := hcomputed
  obtain ⟨mocked, hmocked, htype⟩ := (Option.any_eq_true _ _).mp hmocked
  have hplan := eq_ok_of_toOption hplan
  obtain ⟨body, type, created, -, hcreated, hedits, hnew, hlegal, -⟩ := introduced_field_named_iff hplan hc hvalue
  obtain rfl : type = "a.B" := by
    cases created with
    | spy given => cases hkind.symm.trans hcreated.1
    | mock a =>
      obtain rfl := Except.ok.inj ((eq_ok_of_toOption hmocked).symm.trans hcreated.2.1)
      exact beq_iff_eq.mp htype
  rw [hname] at hedits hnew hlegal
  exact ⟨plan, c, hplan, hc, hvalue, hedits.mem_iff.mpr (.head _), hnew,
    hlegal.mpr ⟨by decide +kernel, .inl htaken⟩⟩

/-- A type that differs from a reserved word in its capital alone gives the field the word for a name. -/
theorem introduced_field_named_reserved :
    let before := "import org.mockito.*;class T\x7bvoid t()\x7bf(Mockito.mock(Switch.class));\x7d\x7d"
    let after := "import org.mockito.*;class T\x7b\n    @Mock\n    Switch switch;\nvoid t()\x7bf(switch);\x7d\x7d"
    ∃ plan, planToField (File.read before) (.caret 50) = .ok plan ∧ plan.preview before = .ok after ∧
      checkVariableName "switch" = .error (.keyword "switch") ∧ (File.read after).broken = true := by
  intro before after
  have hcomputed : ((planToField (File.read before) (.caret 50)).toOption.any fun plan =>
      (plan.preview before).toOption == some after && (File.read after).broken) = true := by
    decide +kernel
  obtain ⟨plan, hplan, hcomputed⟩ := (Option.any_eq_true _ _).mp hcomputed
  rw [Bool.and_eq_true, beq_iff_eq] at hcomputed
  refine ⟨plan, eq_ok_of_toOption hplan, eq_ok_of_toOption hcomputed.1, ?_, hcomputed.2⟩
  rw [checkVariableName, if_neg (by decide +kernel), if_pos (by decide +kernel)]

end MockDialect.Creation
