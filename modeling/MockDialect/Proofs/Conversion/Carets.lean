import MockDialect.Proofs.Chain.Partition
import MockDialect.Proofs.Conversion.Sites

namespace MockDialect.Conversion

open Chain Java Recognition Source Text

variable {f : File} {c d : Cursor}

theorem callsAround_nearest (h : c.nearest? (·.isCall) = some d) : callsAround c = callsAround d := by
  obtain ⟨n, above⟩ := c
  unfold Cursor.nearest? at h
  unfold callsAround
  dsimp only at h ⊢
  induction above generalizing n with
  | nil =>
    obtain rfl := List.mem_singleton.mp (List.mem_of_find?_eq_some h)
    rfl
  | cons m above ih =>
    rw [Cursor.outward] at h
    by_cases hcall : (⟨n, m :: above⟩ : Cursor).isCall = true
    · rw [List.find?_cons_of_pos (p := fun e : Cursor => e.isCall) hcall] at h
      rw [← Option.some.inj h]
    · rw [List.find?_cons_of_neg (p := fun e : Cursor => e.isCall) hcall] at h
      rw [Cursor.outward, List.filter_cons_of_neg hcall, ih m h]

theorem callsAround_of_isCall (hcall : c.isCall = true) : ∃ rest, callsAround c = c :: rest := by
  obtain ⟨n, above⟩ := c
  cases above with
  | nil => exact ⟨[], List.filter_cons_of_pos hcall⟩
  | cons m above => exact ⟨_, List.filter_cons_of_pos hcall⟩

section

variable {α : Type} {g : Cursor → Option α}
  (hg : ∀ {a b : Cursor}, Cursor.In f.tree a → Cursor.In f.tree b → a.isCall = true → b.isCall = true →
    outermostCall a = outermostCall b → g a = g b)

include hg

theorem findSome?_callsAround (h : Cursor.In f.tree c) (hcall : c.isCall = true) :
    (callsAround c).findSome? g = (callsAround (outermostCall c)).findSome? g := by
  obtain ⟨n, above⟩ := c
  induction above generalizing n with
  | nil =>
    rw [outermostCall, outward, if_pos hcall]
    rfl
  | cons m above ih =>
    by_cases hchained : (m.isCall && n.role == some .object) = true
    · obtain ⟨hup, -⟩ := h.up
      have hm : (⟨m, above⟩ : Cursor).isCall = true := (Bool.and_eq_true_iff.mp hchained).1
      have houter : outermostCall ⟨n, m :: above⟩ = outermostCall ⟨m, above⟩ := by
        rw [outermostCall, outward, if_pos hcall, outwardFrom, if_pos hchained, List.getLastD_cons, outermostCall,
          outward, if_pos hm]
      obtain ⟨rest, hrest⟩ := callsAround_of_isCall hm
      have haround : callsAround ⟨n, m :: above⟩ = ⟨n, m :: above⟩ :: callsAround ⟨m, above⟩ :=
        List.filter_cons_of_pos hcall
      rw [houter, ← ih m hup hm, haround, hrest, List.findSome?_cons, List.findSome?_cons, hg h hup hcall hm houter]
      cases g ⟨m, above⟩ <;> rfl
    · rw [outermostCall, outward, if_pos hcall, outwardFrom, if_neg hchained]
      rfl

end

theorem siteOf_eq_of_outermostCall (hqualified : f.tree.All Node.Qualified) (hc : Cursor.In f.tree c)
    (hccall : c.isCall = true) (hd : Cursor.In f.tree d) (hdcall : d.isCall = true) (h : outermostCall c = outermostCall d) :
    siteOf f c = siteOf f d := by
  rw [siteOf, siteOf, chainOf_eq_of_outermostCall hqualified hc hccall hd hdcall h, h]

theorem findSome?_of_callAt? (hqualified : f.tree.All Node.Qualified) {offset : Nat} (h : f.callAt? offset = some c) :
    (callsAround (f.placeAt offset)).findSome? (fun call =>
      (classify? (chainOf f call)).map fun dialect => (dialect, siteOf f call)) =
    (callsAround (outermostCall c)).findSome? (fun call =>
      (classify? (chainOf f call)).map fun dialect => (dialect, siteOf f call)) := by
  obtain ⟨hin, hcall, -⟩ := (placeAt_in f offset).nearest h
  rw [callsAround_nearest h]
  refine findSome?_callsAround (fun ha hb hacall hbcall hab => ?_) hin hcall
  rw [chainOf_eq_of_outermostCall hqualified ha hacall hb hbcall hab,
    siteOf_eq_of_outermostCall hqualified ha hacall hb hbcall hab]

theorem selectAt_eq_of_outermostCall (hqualified : f.tree.All Node.Qualified) {offset offset' : Nat}
    (hc : f.callAt? offset = some c) (hd : f.callAt? offset' = some d) (h : outermostCall c = outermostCall d) :
    selectAt f offset = selectAt f offset' := by
  rw [selectAt, selectAt, findSome?_of_callAt? hqualified hc, findSome?_of_callAt? hqualified hd, h]

/-- A call from which the walks in both directions trace one chain. -/
structure Traced (f : File) (n : Cursor) : Prop where
  member : ∃ call ∈ (chainOf f n).calls, readCall? f n.node = some call
  inverse : inward (outermostCall n) = (rootCall n :: outward (rootCall n)).reverse
  tied : Tied f (chainOf f n)

theorem chains_partition_calls (f : File) (hf : Chainable f.tree) :
    (∀ m n, Cursor.In f.tree m → Cursor.In f.tree n → m.isCall = true → n.isCall = true →
      chainOf f m = chainOf f n ∨ ∀ call ∈ (chainOf f m).calls, call ∉ (chainOf f n).calls) ∧
    (∀ n, Cursor.In f.tree n → n.isCall = true → Traced f n) ∧
    ∀ o o' m n, f.callAt? o = some m → f.callAt? o' = some n → chainOf f m = chainOf f n →
      select f (.caret o) = select f (.caret o') ∧ ∀ policy base target,
        Planner.plan ⟨f, policy, base⟩ (.caret o) target = Planner.plan ⟨f, policy, base⟩ (.caret o') target := by
  refine ⟨fun m n hm hn hmcall hncall => ?_, fun n hn hcall => ⟨?_, ?_, ?_⟩, fun o o' m n hm hn hchain => ?_⟩
  · by_cases hcommon : ∃ call ∈ (chainOf f m).calls, call ∈ (chainOf f n).calls
    · obtain ⟨call, hmemm, hmemn⟩ := hcommon
      have houter := outermostCall_of_common hf hm hmcall hn hncall hmemm hmemn
      exact .inl (chainOf_eq_of_outermostCall hf.qualified hm hmcall hn hncall houter)
    · exact .inr fun call hmemm hmemn => hcommon ⟨call, hmemm, hmemn⟩
  · exact exists_mem_chainOf hf hn hcall
  · rw [inward_outermostCall_eq_reverse hf.qualified hn hcall, links, if_pos hcall]
  · exact chainOf_tied hf hn hcall
  · obtain ⟨hmin, hmcall, -⟩ := (placeAt_in f o).nearest hm
    obtain ⟨hnin, hncall, -⟩ := (placeAt_in f o').nearest hn
    obtain ⟨call, hmem, -⟩ := exists_mem_chainOf hf hmin hmcall
    have houter := outermostCall_of_common hf hmin hmcall hnin hncall hmem (hchain ▸ hmem)
    have hselect : select f (.caret o) = select f (.caret o') := selectAt_eq_of_outermostCall hf.qualified hm hn houter
    exact ⟨hselect, fun policy base target => by rw [Planner.plan, Planner.plan, hselect]⟩

theorem File.read_chainable (text : String) : Chainable (File.read text).tree :=
  chainable_of_sound (File.read_sound text) (File.read_solid text)

theorem chains_partition_calls_when_thenReturn :
    let f := File.read "import org.mockito.*;class T\x7b\x7bMockito.when(a.b(1)).thenReturn(2);\x7d\x7d"
    ∃ m n k, f.callAt? 38 = some m ∧ f.callAt? 55 = some n ∧ f.callAt? 45 = some k ∧
      m.span = ⟨30, 50⟩ ∧ n.span = ⟨30, 64⟩ ∧ k.span = ⟨43, 49⟩ ∧
      chainOf f m = chainOf f n ∧ Traced f n ∧
      (∀ call ∈ (chainOf f m).calls, call ∉ (chainOf f k).calls) ∧
      select f (.caret 38) = select f (.caret 55) := by
  intro f
  have hcomputed : (f.callAt? 38).any (fun m => (f.callAt? 55).any fun n => (f.callAt? 45).any fun k =>
      m.span == ⟨30, 50⟩ && n.span == ⟨30, 64⟩ && k.span == ⟨43, 49⟩ &&
        (outermostCall m).span == (outermostCall n).span && (chainOf f m).length != (chainOf f k).length) = true := by
    decide +kernel
  obtain ⟨m, hm, hcomputed⟩ := (Option.any_eq_true _ _).mp hcomputed
  obtain ⟨n, hn, hcomputed⟩ := (Option.any_eq_true _ _).mp hcomputed
  obtain ⟨k, hk, hcomputed⟩ := (Option.any_eq_true _ _).mp hcomputed
  simp only [Bool.and_eq_true, beq_iff_eq, bne_iff_ne] at hcomputed
  obtain ⟨⟨⟨⟨hmspan, hnspan⟩, hkspan⟩, houter⟩, hlength⟩ := hcomputed
  have hf : Chainable f.tree := File.read_chainable _
  obtain ⟨hmin, hmcall, -⟩ := (placeAt_in f 38).nearest hm
  obtain ⟨hnin, hncall, -⟩ := (placeAt_in f 55).nearest hn
  obtain ⟨hkin, hkcall, -⟩ := (placeAt_in f 45).nearest hk
  obtain ⟨hmlast, hmlastCall⟩ := outermostCall_in hmin hmcall
  obtain ⟨hnlast, hnlastCall⟩ := outermostCall_in hnin hncall
  have hchain : chainOf f m = chainOf f n := chainOf_eq_of_outermostCall hf.qualified hmin hmcall hnin hncall
    (eq_of_span hf hmlast hmlastCall hnlast hnlastCall houter)
  obtain ⟨hpartition, htraced, hcarets⟩ := chains_partition_calls f hf
  refine ⟨m, n, k, hm, hn, hk, hmspan, hnspan, hkspan, hchain, htraced n hnin hncall, ?_,
    (hcarets 38 55 m n hm hn hchain).1⟩
  exact (hpartition m k hmin hkin hmcall hkcall).resolve_left fun heq => hlength (by rw [heq])

end MockDialect.Conversion
