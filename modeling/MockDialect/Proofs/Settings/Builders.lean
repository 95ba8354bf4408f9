import MockDialect.Proofs.Chain.Arguments
import MockDialect.Proofs.Settings.Grammar
import MockDialect.Proofs.Settings.Normal

namespace MockDialect.Settings

open Api Chain Conversion Java Source Text

variable {f : File} {a : Attributes}

/-- Settings of which each was given by a call. -/
structure Attributes.GivenBy (a : Attributes) (calls : List BuilderCall) : Prop where
  name : ∀ text ∈ a.name, .name text ∈ calls
  answer : ∀ text ∈ a.answer, .defaultAnswer text ∈ calls
  interfaces : a.extraInterfaces ≠ [] → .extraInterfaces a.extraInterfaces ∈ calls

namespace Attributes

theorem eq_of_givenName {text given : String} (h : given ∈ givenName text) : given = text := by
  unfold givenName at h
  split at h
  · cases h
  · exact (Option.some.inj h).symm

theorem eq_of_givenAnswer {text given : String} (h : given ∈ givenAnswer text) : given = text := by
  unfold givenAnswer at h
  split at h
  · cases h
  · exact (Option.some.inj h).symm

theorem GivenBy.apply {calls : List BuilderCall} (h : a.GivenBy calls) (b : BuilderCall) :
    (a.apply b).GivenBy (calls ++ [b]) := by
  have hkept : a.GivenBy (calls ++ [b]) :=
    ⟨fun text ht => List.mem_append_left _ (h.name text ht), fun text ht => List.mem_append_left _ (h.answer text ht),
      fun hne => List.mem_append_left _ (h.interfaces hne)⟩
  obtain ⟨hname, hanswer, hinterfaces⟩ := hkept
  cases b <;> refine ⟨?_, ?_, ?_⟩ <;> simp only [Attributes.apply]
  case name.refine_1 text =>
    intro given hgiven
    rw [eq_of_givenName hgiven]
    exact List.mem_append_right _ (.head _)
  case defaultAnswer.refine_2 text =>
    intro given hgiven
    rw [eq_of_givenAnswer hgiven]
    exact List.mem_append_right _ (.head _)
  case extraInterfaces.refine_3 types => exact fun _ => List.mem_append_right _ (.head _)
  all_goals assumption

theorem GivenBy.foldl {before calls : List BuilderCall} (h : a.GivenBy before) :
    (calls.foldl Attributes.apply a).GivenBy (before ++ calls) := by
  induction calls generalizing a before with
  | nil => rwa [List.append_nil]
  | cons b calls ih =>
    rw [List.append_cons]
    exact ih (h.apply b)

theorem givenBy_ofBuilderCalls (calls : List BuilderCall) : (ofBuilderCalls calls).GivenBy calls := by
  have hnone : GivenBy {} [] := ⟨nofun, nofun, absurd rfl⟩
  exact hnone.foldl

end Attributes

theorem exists_calls_of_ofSettingsChain {chain : Chain} (h : ofSettingsChain chain = .ok a) :
    ∃ calls, a = .ofBuilderCalls calls ∧ ∀ b ∈ calls, ∃ call ∈ chain.calls, Sets call b := by
  obtain ⟨first, rest, calls, hcalls, -, hsets, rfl⟩ := ofSettingsChain_eq_ok_iff.mp h
  refine ⟨calls, rfl, fun b hb => ?_⟩
  obtain ⟨call, hcall, hb⟩ := exists_of_forall₂ hsets b hb
  exact ⟨call, hcalls ▸ .tail first hcall, hb⟩

theorem exists_args_of_ofSettingsChain {chain : Chain} (h : ofSettingsChain chain = .ok a) :
    (∀ text ∈ a.name, ∃ call ∈ chain.calls, call.args.map (·.text) = [text]) ∧
      (∀ text ∈ a.answer, ∃ call ∈ chain.calls, call.args.map (·.text) = [text]) ∧
      (a.extraInterfaces ≠ [] → ∃ call ∈ chain.calls, call.args.map (·.text) = a.extraInterfaces) := by
  obtain ⟨calls, rfl, hread⟩ := exists_calls_of_ofSettingsChain h
  have hgiven := Attributes.givenBy_ofBuilderCalls calls
  have hargs : ∀ b ∈ calls, (∀ s, b ≠ .strictness s) → ∃ call ∈ chain.calls, call.args.map (·.text) = b.argTexts := by
    intro b hb hne
    obtain ⟨call, hcall, hb⟩ := hread b hb
    exact ⟨call, hcall, hb.texts.resolve_left fun ⟨s, hs⟩ => hne s hs⟩
  exact ⟨fun text ht => hargs _ (hgiven.name text ht) nofun, fun text ht => hargs _ (hgiven.answer text ht) nofun,
    fun hne => hargs _ (hgiven.interfaces hne) nofun⟩

/-- A node that reads calls on new settings, the last call first. -/
def SettingsAt (f : File) : List BuilderCall → Node → Prop
  | [] => Invokes f "withSettings" (ClassAt f .mockito) fun args => args.map f.spell = []
  | b :: calls => Invokes f b.method (SettingsAt f calls) fun args => args.map f.spell = b.argTexts

instance decidableSettingsAt (f : File) : (calls : List BuilderCall) → DecidablePred (SettingsAt f calls)
  | [], n => inferInstanceAs (Decidable (Invokes f _ (ClassAt f .mockito) (fun args => args.map f.spell = []) n))
  | b :: calls, n =>
    have := decidableSettingsAt f calls
    inferInstanceAs (Decidable (Invokes f b.method (SettingsAt f calls) (fun args => args.map f.spell = b.argTexts) n))

theorem SettingsAt.isCall {calls : List BuilderCall} {n : Node} (h : SettingsAt f calls n) : n.isCall = true := by
  cases calls <;> exact h.1

theorem map_text_readArg (ns : List Node) : (ns.map (readArg f)).map (·.text) = ns.map f.spell := by
  rw [List.map_map]
  exact List.map_congr_left fun n _ => text_readArg n

theorem SettingsAt.inward {calls : List BuilderCall} {n : Node} (himports : ImportsLibrary f)
    (h : SettingsAt f calls n) (hne : .extraInterfaces [] ∉ calls) (above : List Node) :
    ∃ read first, (inwardFrom n above).filterMap (fun l => readCall? f l.node) = read ++ [first] ∧
      List.Forall₂ Sets read calls ∧ OpensSettings first := by
  induction calls generalizing n above with
  | nil =>
    obtain ⟨call, object, list, hread, hname, hobject, hcls, -, hargs, hcallArgs⟩ := Invokes.exists_readCall? h
    -- the class in front of the first call is no call, so the walk ends there
    have hinner : inwardFrom object (n :: above) = [] := by
      obtain ⟨kind, role, span, children⟩ := object
      obtain rfl : kind = .identifier := hcls.1
      rfl
    refine ⟨[], call, ?_, .nil, hname, ?_, ?_⟩
    · rw [inwardFrom_of_child? above h.1 hobject, hinner, List.filterMap_cons, hread]
      rfl
    · rw [receiver_of_classAt himports hread hobject hcls, hname]
      rfl
    · rw [hcallArgs, List.map_eq_nil_iff.mp hargs]
      rfl
  | cons b calls ih =>
    obtain ⟨call, object, list, hread, hname, hobject, hon, -, hargs, hcallArgs⟩ := Invokes.exists_readCall? h
    obtain ⟨hb, hrest⟩ := List.ne_and_not_mem_of_not_mem_cons hne
    obtain ⟨read, first, hinward, hreads, hfirst⟩ := ih hon hrest (n :: above)
    refine ⟨call :: read, first, ?_, ?_, hfirst⟩
    · rw [inwardFrom_of_child? above h.1 hobject, List.filterMap_cons, hread, hinward]
      rfl
    · have htexts : call.args.map (·.text) = b.argTexts := by rw [hcallArgs, map_text_readArg, hargs]
      exact .cons (sets_of_texts hname htexts (Ne.symm hb)) hreads

theorem ofSettingsChain_of_settingsAt {calls : List BuilderCall} {c : Cursor} (hf : f.Sound)
    (himports : ImportsLibrary f) (hc : Cursor.In f.tree c) (hlast : outermostCall c = c)
    (h : SettingsAt f calls.reverse c.node) (hne : .extraInterfaces [] ∉ calls) :
    ofSettingsChain (chainOf f c) = .ok (.ofBuilderCalls calls) := by
  obtain ⟨read, first, hinward, hreads, hopens⟩ := h.inward himports (mt List.mem_reverse.mp hne) c.above
  have hcalls : (chainOf f c).calls = first :: read.reverse := by
    rw [chainOf, ← List.reverse_reverse (links c), ← inward_outermostCall_eq_reverse hf.qualified hc h.isCall, hlast,
      List.filterMap_reverse, inward, hinward, List.reverse_append]
    rfl
  have hsets : List.Forall₂ Sets read.reverse calls := by
    rw [← List.forall₂_reverse_iff, List.reverse_reverse]
    exact hreads
  exact ofSettingsChain_eq_ok_iff.mpr ⟨first, read.reverse, calls, hcalls, hopens, hsets, rfl⟩

end MockDialect.Settings
