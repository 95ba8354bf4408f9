import MockDialect.Proofs.Conversion.Frame
import MockDialect.Proofs.Source.Importing

namespace MockDialect.Conversion

open Api Chain Edit Recognition Source Text

/-- The class that a new chain or head is spelled on, where it is spelled on one. -/
def Target.entryClass? : Target → Option EntryClass
  | stubbing d => some d.entryClass
  | verification t => t.entryClass?

/-- Whether an `InOrder` has to be declared for the selected chains. -/
def needsOrder (selected : Selected) (target : Target) : Bool :=
  match selected.dialect, target with
  | .verification source, .verification goal =>
    goal.usesInOrder && selected.sites.any fun site => (source.head? site.chain).any (·.inOrder.isNone)
  | _, _ => false

/-- The classes that a conversion names: those of the declaration of an `InOrder`, and that of the new texts. -/
def classesNamed (selected : Selected) (target : Target) : List String :=
  (if needsOrder selected target then [inOrderClass, EntryClass.mockito.qualifiedName] else []) ++
    target.entryClass?.toList.map (·.qualifiedName)

variable {f : File} {p : Planner} {selected : Selected} {target : Target} {planned : Planned}

theorem headImports_eq (t : Verification.Target) : headImports t = t.entryClass?.toList.map (·.qualifiedName) := by
  cases t <;> rfl

section

variable {sites : List Site} {source : Verification.Dialect} {goal : Verification.Target} {base : String}
  {heads : List Verification.Head} {edits : List Edit}

theorem any_of_heads (q : Verification.Head → Bool) (h : sites.mapM (headOf source) = .ok heads) :
    heads.any q = sites.any fun site => (source.head? site.chain).any q := by
  have hrow : List.Forall₂ (fun site head => source.head? site.chain = some head) sites heads :=
    forall₂_of_map_eq (mapM_eq_ok.mp h) fun site _ head => headOf_eq_ok.mp
  clear h
  induction hrow with
  | nil => rfl
  | cons hhead _ ih => rw [List.any_cons, List.any_cons, hhead, ih, Option.any_some]

theorem Replaced.isSome_addedInOrder (h : Replaced f sites source goal base heads edits) (bulk : Bool) :
    (addedInOrder f goal base heads).isSome = needsOrder ⟨.verification source, sites, bulk⟩ (.verification goal) := by
  change _ = (goal.usesInOrder && sites.any fun site => (source.head? site.chain).any (·.inOrder.isNone))
  rw [← any_of_heads _ h.read, addedInOrder]
  cases goal.usesInOrder && heads.any (·.inOrder.isNone) <;> rfl

theorem Replaced.imports (hreplaced : Replaced f sites source goal base heads edits)
    (h : convertVerification f sites source goal base = .ok planned) (bulk : Bool) :
    planned.imports = classesNamed ⟨.verification source, sites, bulk⟩ (.verification goal) := by
  unfold convertVerification at h
  dsimp only at h
  rw [if_neg (by simpa using hreplaced.offered)] at h
  obtain ⟨heads', hheads, h⟩ := bind_eq_ok.mp h
  obtain rfl := Except.ok.inj (hheads.symm.trans hreplaced.read)
  obtain ⟨⟨⟩, -, h⟩ := bind_eq_ok.mp h
  obtain ⟨classes, _, h⟩ := bind_eq_ok.mp h
  obtain ⟨edits', _, h⟩ := bind_eq_ok.mp h
  rw [← Except.ok.inj h, classesNamed, ← hreplaced.isSome_addedInOrder, headImports_eq]
  rfl

end

end MockDialect.Conversion
