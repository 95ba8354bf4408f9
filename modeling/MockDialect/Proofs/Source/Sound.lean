import MockDialect.Proofs.Java.Places
import MockDialect.Source.File

namespace MockDialect.Source

open Java Text

structure File.Sound (f : File) : Prop where
  text : f.text = f.source.toList
  placed : f.tree.Placed f.text
  formed : f.tree.All (Node.Formed f.text)
  program : f.tree.kind = .program
  imports : f.imports = .ofTree f.text f.tree

/-- What planning relies on: how a file is made, that ranges nest and end between characters, and where the braces
and semicolons stand that edits are put behind. -/
structure File.Regular (f : File) : Prop where
  text : f.text = f.source.toList
  imports : f.imports = .ofTree f.text f.tree
  program : f.tree.kind = .program
  placed : f.tree.Placed f.text
  nodes : f.tree.All (Node.Regular f.text)

theorem File.Sound.regular {f : File} (hf : f.Sound) : f.Regular :=
  ⟨hf.text, hf.imports, hf.program, hf.placed, hf.formed.imp Node.Formed.regular⟩

theorem File.Sound.qualified {f : File} (hf : f.Sound) : f.tree.All Node.Qualified :=
  hf.formed.imp fun h _ => h.qualified

theorem File.read_eq (source : String) : ∃ tree broken,
    (parse? source.toList = some tree ∨ tree = .leaf .program ⟨0, width source.toList⟩) ∧
      File.read source = .ofTree source source.toList tree broken := by
  cases h : parse? source.toList with
  | none => exact ⟨_, true, .inr rfl, by simp only [File.read, h]⟩
  | some tree => exact ⟨tree, false, .inl rfl, by simp only [File.read, h]⟩

theorem File.read_sound (source : String) : (File.read source).Sound := by
  obtain ⟨tree, broken, htree, he⟩ := File.read_eq source
  rw [he]
  rcases htree with htree | rfl
  · refine ⟨rfl, parse?_placed htree, parse?_formed htree, ?_, rfl⟩
    obtain ⟨tokens, trailing, nodes, -, -, rfl⟩ := parse?_reads htree
    rfl
  · have hcuts : Cuts source.toList ⟨0, width source.toList⟩ := ⟨isBoundary_zero _, isBoundary_end _⟩
    exact ⟨rfl, placed_leaf .program (Nat.zero_le _) hcuts, formed_leaf (by decide), rfl, rfl⟩

@[simp] theorem File.source_read (source : String) : (File.read source).source = source := by
  obtain ⟨tree, broken, -, he⟩ := File.read_eq source
  rw [he]
  rfl

end MockDialect.Source
