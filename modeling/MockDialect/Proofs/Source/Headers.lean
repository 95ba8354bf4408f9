import MockDialect.Conversion.Declaration
import MockDialect.Proofs.Source.Sound

namespace MockDialect.Source

open Conversion Edit Java Text

/-- The offset at which imports are added. -/
def Imports.place (imports : Imports) : Nat :=
  match imports.lastImportEnd, imports.packageEnd with
  | some stop, _ => stop
  | none, some stop => stop
  | none, none => 0

theorem span_of_planImports {imports : Imports} {names : List String} {e : Edit}
    (h : planImports imports names = some e) : e.span = .point imports.place := by
  unfold planImports at h
  split at h
  case h_1 => cases h
  case h_2 =>
    cases hlast : imports.lastImportEnd <;> cases hpackage : imports.packageEnd <;>
      simp only [hlast, hpackage, Option.some.injEq] at h <;> subst h <;>
      simp [Edit.insert, Imports.place, hlast, hpackage]

/-- The ends that imports keep are those of headers among some nodes. -/
structure Imports.EndsAmong (nodes : List Node) (imports : Imports) : Prop where
  last : ∀ stop ∈ imports.lastImportEnd, ∃ n ∈ nodes, n.kind.isHeader = true ∧ n.span.stop = stop
  package : ∀ stop ∈ imports.packageEnd, ∃ n ∈ nodes, n.kind.isHeader = true ∧ n.span.stop = stop

theorem Imports.add_ends (imports : Imports) (text : List Char) :
    (imports.add text).lastImportEnd = imports.lastImportEnd ∧
      (imports.add text).packageEnd = imports.packageEnd := by
  unfold Imports.add
  dsimp only
  split
  case h_4 => split <;> exact ⟨rfl, rfl⟩
  all_goals exact ⟨rfl, rfl⟩

theorem Imports.EndsAmong.addNode {nodes : List Node} {imports : Imports} {n : Node} (text : List Char)
    (h : imports.EndsAmong nodes) (hn : n ∈ nodes) : (imports.addNode text n).EndsAmong nodes := by
  unfold Imports.addNode
  split
  case h_1 hkind => exact ⟨h.last, fun stop hs => ⟨n, hn, by rw [hkind]; rfl, Option.some.inj hs⟩⟩
  case h_2 hkind =>
    refine ⟨fun stop hs => ⟨n, hn, by rw [hkind]; rfl, Option.some.inj hs⟩, fun stop hs => h.package stop ?_⟩
    rw [← (imports.add_ends _).2]
    exact hs
  case h_3 => exact h

theorem Imports.ofTree_endsAmong (text : List Char) (root : Node) :
    (Imports.ofTree text root).EndsAmong root.children := by
  have hfold : ∀ (ns : List Node) (imports : Imports), (∀ n ∈ ns, n ∈ root.children) →
      imports.EndsAmong root.children → (ns.foldl (Imports.addNode text) imports).EndsAmong root.children := by
    intro ns
    induction ns with
    | nil => exact fun _ _ h => h
    | cons n ns ih =>
      exact fun imports hns h => ih _ (fun m hm => hns m (.tail n hm)) (h.addNode text (hns n (.head ns)))
  refine hfold _ _ (fun n hn => ?_) ⟨nofun, nofun⟩
  exact (List.filter_sublist.trans List.filter_sublist).subset hn

theorem Imports.EndsAmong.place {nodes : List Node} {imports : Imports} (h : imports.EndsAmong nodes) :
    imports.place = 0 ∨ ∃ n ∈ nodes, n.kind.isHeader = true ∧ n.span.stop = imports.place := by
  unfold Imports.place
  cases hlast : imports.lastImportEnd with
  | some stop => exact .inr (h.last stop hlast)
  | none =>
    cases hpackage : imports.packageEnd with
    | some stop => exact .inr (h.package stop hpackage)
    | none => exact .inl rfl

def isContent (n : Node) : Bool := n.kind != .token && !n.kind.isHeader && n.kind != .program

theorem File.Regular.place_cases {f : File} (hf : f.Regular) : f.imports.place = 0 ∨
    ∃ semicolon, f.imports.place = semicolon + 1 ∧ CharAt f.text semicolon ';' ∧
      ∀ n, f.tree.Within n → isContent n = true → semicolon < n.span.start ∨ n.span.stop ≤ semicolon := by
  rw [hf.imports]
  rcases (Imports.ofTree_endsAmong f.text f.tree).place with hzero | ⟨header, hheader, hkind, hplace⟩
  · exact .inl hzero
  right
  obtain ⟨hlo, hhi, hplaced⟩ := hf.placed.laid.of_mem hheader
  obtain ⟨front, last, hchildren, htoken, hstop, hchar⟩ := (hf.nodes.child hheader).self.ended hkind
  have hlast : last ∈ header.children := by rw [hchildren]; simp
  have hinside := hplaced.laid.of_mem hlast
  refine ⟨last.span.start, hplace.symm.trans hstop, hchar, fun n hn hcontent => ?_⟩
  simp only [isContent, Bool.and_eq_true, bne_iff_ne, ne_eq, Bool.not_eq_true'] at hcontent
  rcases hn.cases_child with rfl | ⟨top, htop, hbelow⟩
  · exact absurd hf.program hcontent.2
  have htopPlaced := (hf.placed.laid.of_mem htop).2.2
  have hwithin := hbelow.inside htopPlaced
  by_cases hsame : top = header
  · subst hsame
    rcases hbelow.cases_child with rfl | ⟨m, hm, hmn⟩
    · rw [hkind] at hcontent
      exact absurd hcontent.1.2 (by decide)
    · rw [hchildren] at hm
      rcases List.mem_append.mp hm with hm | hm
      · have hrow := hplaced.laid.pairwise
        rw [hchildren] at hrow
        have hmlast := (List.pairwise_append.mp hrow).2.2 m hm last (.head [])
        have hmem : m ∈ top.children := by rw [hchildren]; exact List.mem_append_left _ hm
        have hmn' := hmn.inside (hplaced.laid.of_mem hmem).2.2
        exact .inr (Nat.le_trans hmn'.2 hmlast)
      · obtain rfl := List.mem_singleton.mp hm
        have hbare := ((hf.nodes.child hheader).child hlast).self
        rw [hmn.eq_of_token hbare htoken] at hcontent
        exact absurd htoken hcontent.1.1
  · rcases hf.placed.apart htop hheader hsame with h | h
    · exact .inr (by omega)
    · exact .inl (by omega)

theorem File.Regular.isBoundary_place {f : File} (hf : f.Regular) : isBoundary f.text f.imports.place = true := by
  rcases hf.place_cases with hzero | ⟨semicolon, hplace, hchar, -⟩
  · rw [hzero]
    exact isBoundary_zero f.text
  · rw [hplace]
    exact hchar.isBoundary_next

end MockDialect.Source
