import MockDialect.Proofs.Conversion.Naming
import MockDialect.Proofs.Source.Headers
import MockDialect.Proofs.Text.Trimming

namespace MockDialect.Source

open Api Conversion Edit Java Text

def File.importTexts (f : File) : List String :=
  (f.tree.codeChildren.filter (·.kind == .importDeclaration)).map f.spell

def importDeclaration (name : String) : String := "import " ++ name ++ ";"

/-- A name without white space, semicolons and stars, as every qualified name of a type is. -/
def isPlain (name : String) : Bool := name.toList.all fun c => !isBlank c && c != ';' && c != '*'

/-- What has to be imported so that some types can be called by their simple names. -/
def Imports.missing (imports : Imports) (names : List String) : List String :=
  unique (names.filter (!imports.importable ·))

/-- A text that is read with the imports of a file and one more import declaration for each of some names. -/
def DeclaresMore (f g : File) (names : List String) : Prop :=
  g.importTexts = f.importTexts ++ names.map importDeclaration

variable {imports : Imports} {names : List String} {name : String}

theorem importedName_importDeclaration (h : isPlain name = true) :
    Imports.importedName (importDeclaration name).toList = (false, name.toList) := by
  have hchars : ∀ c ∈ name.toList, isBlank c = false ∧ (c == ';') = false := by
    intro c hc
    have := List.all_eq_true.mp h c hc
    simp only [Bool.and_eq_true, Bool.not_eq_true', bne_iff_ne, ne_eq] at this
    exact ⟨this.1.1, by simpa using this.1.2⟩
  have hblank : ∀ c ∈ name.toList, isBlank c = false := fun c hc => (hchars c hc).1
  have htext : (importDeclaration name).toList = "import".toList ++ (' ' :: name.toList ++ [';']) := by
    simp [importDeclaration, String.toList_append]
  have hbody : Imports.importBody (importDeclaration name).toList = name.toList := by
    have hlead : trimChars (importDeclaration name).toList = (importDeclaration name).toList := by
      have hend : dropBlankEnd (("import".toList ++ ' ' :: name.toList) ++ [';']) =
          ("import".toList ++ ' ' :: name.toList) ++ [';'] := dropBlankEnd_append rfl (by decide)
      rw [htext, trimChars]
      exact hend
    have hsemicolon : (' ' :: name.toList ++ [';']).reverse.dropWhile (· == ';') = (' ' :: name.toList).reverse := by
      rw [List.reverse_append, List.reverse_singleton, List.singleton_append, List.dropWhile_cons_of_pos rfl]
      refine dropWhile_eq_self fun c hc => ?_
      rcases List.mem_cons.mp (List.mem_reverse.mp hc) with rfl | hc
      · rfl
      · exact (hchars c hc).2
    rw [Imports.importBody, hlead, htext, dropLead?_append, Option.getD_some, hsemicolon, List.reverse_reverse]
    have hspace : ∀ c ∈ [' '], isBlank c = true := List.forall_mem_singleton.mpr (by decide)
    exact trimChars_append hspace hblank
  have hsqueezed : name.toList.filter (!isBlank ·) = name.toList :=
    List.filter_eq_self.mpr fun c hc => by rw [hblank c hc]; rfl
  rw [Imports.importedName, hbody]
  dsimp only
  split
  case h_2 => rw [hsqueezed]
  case h_1 c cs hstatic =>
    -- behind a leading `static` a name goes on without white space
    have hc : c ∈ name.toList := by
      rw [dropLead?] at hstatic
      split at hstatic
      case isFalse => cases hstatic
      case isTrue =>
        have hmem : c ∈ c :: cs := .head cs
        rw [← Option.some.inj hstatic] at hmem
        exact List.mem_of_mem_drop hmem
    rw [if_neg (Bool.eq_false_iff.mp (hblank c hc)), hsqueezed]

theorem starred?_of_isPlain (h : isPlain name = true) : Imports.starred? name.toList = none := by
  unfold Imports.starred?
  split
  case h_2 => rfl
  case h_1 rest hrest =>
    have hstar : '*' ∈ name.toList := List.mem_reverse.mp (hrest ▸ .head _)
    have := List.all_eq_true.mp h _ hstar
    simp at this

theorem add_importDeclaration (imports : Imports) (h : isPlain name = true) :
    imports.add (importDeclaration name).toList = { imports with single := imports.single ++ [name] } := by
  unfold Imports.add
  rw [importedName_importDeclaration h]
  dsimp only
  rw [starred?_of_isPlain h]
  dsimp only
  rw [String.ofList_toList]

def Imports.ofTexts (texts : List String) (imports : Imports) : Imports :=
  texts.foldl (fun imports text => imports.add text.toList) imports

theorem ofTexts_importDeclarations (imports : Imports) (h : ∀ name ∈ names, isPlain name = true) :
    imports.ofTexts (names.map importDeclaration) = { imports with single := imports.single ++ names } := by
  induction names generalizing imports with
  | nil => simp [Imports.ofTexts]
  | cons name names ih =>
    rw [List.map_cons, Imports.ofTexts, List.foldl_cons, add_importDeclaration imports (h name (.head _))]
    rw [← Imports.ofTexts, ih _ fun n hn => h n (.tail _ hn)]
    simp

structure Imports.SameTypes (a b : Imports) : Prop where
  single : a.single = b.single
  onDemand : a.onDemand = b.onDemand

theorem Imports.SameTypes.add {a b : Imports} (h : a.SameTypes b) (text : List Char) :
    (a.add text).SameTypes (b.add text) := by
  unfold Imports.add
  dsimp only
  split
  case h_1 => exact ⟨h.single, by rw [h.onDemand]⟩
  case h_2 => exact ⟨by rw [h.single], h.onDemand⟩
  case h_3 => exact ⟨h.single, h.onDemand⟩
  case h_4 => split <;> exact ⟨h.single, h.onDemand⟩

theorem File.Sound.sameTypes {f : File} (hf : f.Sound) :
    f.imports.SameTypes (Imports.ofTexts f.importTexts {}) := by
  have hfold : ∀ (ns : List Node) (a b : Imports), a.SameTypes b →
      (ns.foldl (Imports.addNode f.text) a).SameTypes
        (b.ofTexts ((ns.filter (·.kind == .importDeclaration)).map f.spell)) := by
    intro ns
    induction ns with
    | nil => exact fun _ _ h => h
    | cons n ns ih =>
      intro a b h
      rw [List.foldl_cons]
      by_cases hkind : n.kind = .importDeclaration
      · rw [List.filter_cons_of_pos (by simpa using hkind), List.map_cons, Imports.ofTexts, List.foldl_cons]
        refine ih _ _ ?_
        have htext : (f.spell n).toList = (slice? f.text n.span).getD [] := String.toList_ofList
        obtain ⟨hsingle, hdemand⟩ := h.add ((slice? f.text n.span).getD [])
        rw [htext, Imports.addNode, hkind]
        exact ⟨hsingle, hdemand⟩
      · rw [List.filter_cons_of_neg (by simpa using hkind)]
        refine ih _ _ ?_
        unfold Imports.addNode
        split
        case h_1 => exact ⟨h.single, h.onDemand⟩
        case h_2 hkind' => exact absurd hkind' hkind
        case h_3 => exact h
  rw [hf.imports]
  exact hfold _ _ _ ⟨rfl, rfl⟩

theorem DeclaresMore.types {f g : File} (hf : f.Sound) (hg : g.Sound) (hnames : ∀ name ∈ names, isPlain name = true)
    (h : DeclaresMore f g names) :
    g.imports.single = f.imports.single ++ names ∧ g.imports.onDemand = f.imports.onDemand := by
  obtain ⟨hsingle, hdemand⟩ := hg.sameTypes
  have hmore : Imports.ofTexts g.importTexts {} =
      (Imports.ofTexts f.importTexts {}).ofTexts (names.map importDeclaration) := by
    rw [h]
    exact List.foldl_append
  rw [hmore, ofTexts_importDeclarations _ hnames] at hsingle hdemand
  exact ⟨by rw [hsingle, hf.sameTypes.single], by rw [hdemand, hf.sameTypes.onDemand]⟩

end MockDialect.Source
