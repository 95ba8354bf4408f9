import MockDialect.Proofs.Conversion.Results
import MockDialect.Settings.Reading
import Mathlib.Data.List.Forall2

namespace MockDialect.Settings

open Api Chain Conversion Source Text

variable {call first : Call} {rest : List Call} {b : BuilderCall} {chain : Chain} {a : Attributes}

/-- The calls on settings that there are, and what each of them sets. A strictness is given by its constant, whatever
stands before the last dot. -/
inductive Sets (call : Call) : BuilderCall → Prop
  | lenient : call.name = "lenient" → call.args = [] → Sets call .lenient
  | name {a : Arg} : call.name = "name" → call.args = [a] → Sets call (.name a.text)
  | strictness {a : Arg} {s : Strictness} : call.name = "strictness" → call.args = [a] →
      trim (simpleName a.text) = s.constant → Sets call (.strictness s)
  | mockMaker {a : Arg} : call.name = "mockMaker" → call.args = [a] → Sets call (.mockMaker a.text)
  | defaultAnswer {a : Arg} : call.name = "defaultAnswer" → call.args = [a] → Sets call (.defaultAnswer a.text)
  | serializable : call.name = "serializable" → call.args = [] → Sets call (.serializable none)
  | serializableMode {a : Arg} : call.name = "serializable" → call.args = [a] →
      Sets call (.serializable (some a.text))
  | stubOnly : call.name = "stubOnly" → call.args = [] → Sets call .stubOnly
  | extraInterfaces : call.name = "extraInterfaces" → call.args ≠ [] →
      Sets call (.extraInterfaces (call.args.map (·.text)))

/-- How a call is named that sets nothing: by its method, or by the strictness that it gives. -/
def offence (call : Call) : String :=
  match call.name, call.args with
  | "strictness", [a] => "strictness " ++ a.text
  | name, _ => name

theorem ofConstant?_eq_some_iff {text : String} {s : Strictness} :
    Strictness.ofConstant? text = some s ↔ text = s.constant := by
  constructor
  · intro h
    have hs := List.find?_some h
    exact (beq_iff_eq.mp hs).symm
  · rintro rfl
    cases s <;> rfl

theorem readBuilderCall_of_sets (h : Sets call b) : readBuilderCall call = .ok b := by
  unfold readBuilderCall
  cases h with
  | strictness hname hargs hconstant =>
    simp only [hname, hargs, readStrictness, ofConstant?_eq_some_iff.mpr hconstant]
  | extraInterfaces hname hargs =>
    obtain ⟨a, args, hcons⟩ := List.exists_cons_of_ne_nil hargs
    simp only [hname, hcons]
  | _ hname hargs => simp only [hname, hargs]

theorem readBuilderCall_cases (call : Call) :
    (∃ b, readBuilderCall call = .ok b ∧ Sets call b) ∨ readBuilderCall call = .error (.unsupported (offence call)) := by
  unfold readBuilderCall
  split
  case h_1 hname hargs => exact .inl ⟨_, rfl, .lenient hname hargs⟩
  case h_2 a hname hargs => exact .inl ⟨_, rfl, .name hname hargs⟩
  case h_3 a hname hargs =>
    have hoffence : offence call = "strictness " ++ a.text := by simp only [offence, hname, hargs]
    rw [hoffence, readStrictness]
    cases hs : Strictness.ofConstant? (trim (simpleName a.text)) with
    | some s => exact .inl ⟨_, rfl, .strictness hname hargs (ofConstant?_eq_some_iff.mp hs)⟩
    | none =>
      by_cases hdefault : trim (simpleName a.text) = "TEST_LEVEL_DEFAULT" <;> simp [hdefault]
  case h_4 a hname hargs => exact .inl ⟨_, rfl, .mockMaker hname hargs⟩
  case h_5 a hname hargs => exact .inl ⟨_, rfl, .defaultAnswer hname hargs⟩
  case h_6 hname hargs => exact .inl ⟨_, rfl, .serializable hname hargs⟩
  case h_7 a hname hargs => exact .inl ⟨_, rfl, .serializableMode hname hargs⟩
  case h_8 hname hargs => exact .inl ⟨_, rfl, .stubOnly hname hargs⟩
  case h_9 a args hname hargs =>
    rw [← hargs]
    exact .inl ⟨_, rfl, .extraInterfaces hname (by simp [hargs])⟩
  case h_10 =>
    rename_i hstrictness _ _ _ _ _ _
    refine .inr ?_
    rw [offence]
    split
    · next a hname hargs => exact absurd hargs (hstrictness a hname)
    · rfl

theorem readBuilderCall_eq_ok_iff : readBuilderCall call = .ok b ↔ Sets call b := by
  constructor
  · intro h
    rcases readBuilderCall_cases call with ⟨c, hread, hsets⟩ | herror
    · obtain rfl := Except.ok.inj (h.symm.trans hread)
      exact hsets
    · cases h.symm.trans herror
  · exact readBuilderCall_of_sets

theorem readBuilderCall_eq_error_iff {e : SettingError} :
    readBuilderCall call = .error e ↔ (∀ b, ¬Sets call b) ∧ e = .unsupported (offence call) := by
  rcases readBuilderCall_cases call with ⟨b, hread, hsets⟩ | herror
  · rw [hread]
    exact ⟨nofun, fun h => absurd hsets (h.1 b)⟩
  · rw [herror]
    constructor
    · intro h
      refine ⟨fun b hsets => ?_, (Except.error.inj h).symm⟩
      cases (readBuilderCall_of_sets hsets).symm.trans herror
    · rintro ⟨-, rfl⟩
      rfl

namespace BuilderCall

def argTexts : BuilderCall → List String
  | lenient | stubOnly | serializable none => []
  | name text | mockMaker text | defaultAnswer text | serializable (some text) => [text]
  | strictness s => ["Strictness." ++ s.constant]
  | extraInterfaces types => types

theorem arguments_eq (b : BuilderCall) : b.arguments = ", ".intercalate b.argTexts := by
  cases b with
  | serializable mode => cases mode <;> rfl
  | _ => rfl

end BuilderCall

theorem sets_of_texts (hname : call.name = b.method) (hargs : call.args.map (·.text) = b.argTexts)
    (hne : b ≠ .extraInterfaces []) : Sets call b := by
  cases b with
  | lenient => exact .lenient hname (List.map_eq_nil_iff.mp hargs)
  | stubOnly => exact .stubOnly hname (List.map_eq_nil_iff.mp hargs)
  | name text =>
    obtain ⟨a, ha, rfl⟩ := List.map_eq_singleton_iff.mp hargs
    exact .name hname ha
  | mockMaker text =>
    obtain ⟨a, ha, rfl⟩ := List.map_eq_singleton_iff.mp hargs
    exact .mockMaker hname ha
  | defaultAnswer text =>
    obtain ⟨a, ha, rfl⟩ := List.map_eq_singleton_iff.mp hargs
    exact .defaultAnswer hname ha
  | strictness s =>
    obtain ⟨a, ha, htext⟩ := List.map_eq_singleton_iff.mp hargs
    have hconstant : trim (simpleName ("Strictness." ++ s.constant)) = s.constant := by cases s <;> decide +kernel
    exact .strictness hname ha (htext ▸ hconstant)
  | serializable mode =>
    cases mode with
    | none => exact .serializable hname (List.map_eq_nil_iff.mp hargs)
    | some text =>
      obtain ⟨a, ha, rfl⟩ := List.map_eq_singleton_iff.mp hargs
      exact .serializableMode hname ha
  | extraInterfaces types =>
    have hsome : call.args ≠ [] := by
      intro hnil
      rw [hnil] at hargs
      exact hne (congrArg _ hargs.symm)
    obtain rfl : call.args.map (·.text) = types := hargs
    exact .extraInterfaces hname hsome

theorem Sets.texts (h : Sets call b) : (∃ s, b = .strictness s) ∨ call.args.map (·.text) = b.argTexts := by
  cases h with
  | strictness => exact .inl ⟨_, rfl⟩
  | extraInterfaces => exact .inr rfl
  | _ _ hargs => exact .inr (by rw [hargs]; rfl)

/-- The call that new settings come from. -/
def OpensSettings (call : Call) : Prop :=
  call.name = "withSettings" ∧ call.receiver = .entry .mockito ∧ call.args = []

/-- The first call of a chain that does not fit, as it is named. -/
inductive Refused : List Call → String → Prop
  | empty : Refused [] "empty settings chain"
  | opening {first : Call} {rest : List Call} : ¬OpensSettings first → Refused (first :: rest) first.name
  | setting {first bad : Call} {front back : List Call} : OpensSettings first →
      (∀ call ∈ front, ∃ b, Sets call b) → (∀ b, ¬Sets bad b) → Refused (first :: (front ++ bad :: back)) (offence bad)

theorem ofSettingsChain_of_opens (hcalls : chain.calls = first :: rest) (h : OpensSettings first) :
    ofSettingsChain chain = (rest.mapM readBuilderCall).map .ofBuilderCalls := by
  obtain ⟨hname, hreceiver, hargs⟩ := h
  unfold ofSettingsChain
  simp only [hcalls, hname, hreceiver, hargs, ne_eq, not_true_eq_false, List.isEmpty_nil, Bool.not_true,
    Bool.false_eq_true, or_self, if_false]
  rfl

theorem ofSettingsChain_of_not_opens (hcalls : chain.calls = first :: rest) (h : ¬OpensSettings first) :
    ofSettingsChain chain = .error (.unsupported first.name) := by
  have hfirst : first.name ≠ "withSettings" ∨ first.receiver ≠ .entry .mockito ∨ !first.args.isEmpty := by
    by_contra hno
    simp only [not_or, not_not, Bool.not_eq_true, Bool.not_eq_false', List.isEmpty_iff] at hno
    exact h hno
  rw [ofSettingsChain, hcalls]
  exact if_pos hfirst

theorem ofSettingsChain_eq_ok_iff : ofSettingsChain chain = .ok a ↔
    ∃ first rest calls, chain.calls = first :: rest ∧ OpensSettings first ∧ List.Forall₂ Sets rest calls ∧
      a = .ofBuilderCalls calls := by
  have hread {rest : List Call} {calls : List BuilderCall} :
      rest.mapM readBuilderCall = .ok calls ↔ List.Forall₂ Sets rest calls := by
    simp only [mapM_eq_ok_iff_forall₂, readBuilderCall_eq_ok_iff]
  constructor
  · intro h
    cases hcalls : chain.calls with
    | nil =>
      rw [ofSettingsChain, hcalls] at h
      cases h
    | cons first rest =>
      by_cases hopens : OpensSettings first
      · rw [ofSettingsChain_of_opens hcalls hopens] at h
        cases hrest : rest.mapM readBuilderCall with
        | error e =>
          rw [hrest] at h
          cases h
        | ok calls =>
          rw [hrest] at h
          exact ⟨first, rest, calls, rfl, hopens, hread.mp hrest, (Except.ok.inj h).symm⟩
      · rw [ofSettingsChain_of_not_opens hcalls hopens] at h
        cases h
  · rintro ⟨first, rest, calls, hcalls, hopens, hrest, rfl⟩
    rw [ofSettingsChain_of_opens hcalls hopens, hread.mpr hrest]
    rfl

theorem exists_refused_of_error {e : SettingError} (h : ofSettingsChain chain = .error e) :
    ∃ text, Refused chain.calls text ∧ e = .unsupported text := by
  cases hcalls : chain.calls with
  | nil =>
    rw [ofSettingsChain, hcalls] at h
    exact ⟨_, .empty, (Except.error.inj h).symm⟩
  | cons first rest =>
    by_cases hopens : OpensSettings first
    · rw [ofSettingsChain_of_opens hcalls hopens] at h
      cases hrest : rest.mapM readBuilderCall with
      | ok calls =>
        rw [hrest] at h
        cases h
      | error d =>
        rw [hrest] at h
        obtain rfl := Except.error.inj h
        obtain ⟨front, bad, back, rfl, hfront, hbad⟩ := mapM_eq_error.mp hrest
        obtain ⟨hsets, rfl⟩ := readBuilderCall_eq_error_iff.mp hbad
        simp only [readBuilderCall_eq_ok_iff] at hfront
        exact ⟨_, .setting hopens hfront hsets, rfl⟩
    · rw [ofSettingsChain_of_not_opens hcalls hopens] at h
      exact ⟨_, .opening hopens, (Except.error.inj h).symm⟩

theorem Refused.ofSettingsChain {text : String} (h : Refused chain.calls text) :
    ofSettingsChain chain = .error (.unsupported text) := by
  generalize hcalls : chain.calls = calls at h
  cases h with
  | empty => rw [Settings.ofSettingsChain, hcalls]
  | opening hopens => exact ofSettingsChain_of_not_opens hcalls hopens
  | setting hopens hfront hbad =>
    rw [ofSettingsChain_of_opens hcalls hopens]
    have hread := readBuilderCall_eq_error_iff.mpr ⟨hbad, rfl⟩
    simp only [← readBuilderCall_eq_ok_iff] at hfront
    rw [mapM_eq_error.mpr ⟨_, _, _, rfl, hfront, hread⟩]
    rfl

/-- A chain that opens with new settings and goes on with some calls, method by method and argument by argument. -/
def Spells (chain : Chain) (calls : List BuilderCall) : Prop :=
  ∃ first rest, chain.calls = first :: rest ∧ OpensSettings first ∧
    rest.map (fun call => (call.name, call.args.map (·.text))) = calls.map fun b => (b.method, b.argTexts)

/-- The calls behind the first, with their arguments separated by commas. -/
def laterText (chain : Chain) : String :=
  String.join (chain.calls.tail.map fun call =>
    "." ++ call.name ++ "(" ++ ", ".intercalate (call.args.map (·.text)) ++ ")")

theorem Attributes.extraInterfaces_not_mem (a : Attributes) : .extraInterfaces [] ∉ a.toBuilderCalls := by
  simp [toBuilderCalls]

theorem Spells.laterText {calls : List BuilderCall} (h : Spells chain calls) :
    laterText chain = String.join (calls.map (·.spell)) := by
  obtain ⟨first, rest, hcalls, -, htexts⟩ := h
  have hspell : (·.spell) = (fun p : String × List String => "." ++ p.1 ++ "(" ++ ", ".intercalate p.2 ++ ")") ∘
      fun b : BuilderCall => (b.method, b.argTexts) := by
    funext b
    rw [BuilderCall.spell, b.arguments_eq]
    rfl
  rw [Settings.laterText, hcalls, hspell, ← List.map_map, ← htexts, List.map_map]
  rfl

theorem Spells.ofSettingsChain {calls : List BuilderCall} (h : Spells chain calls)
    (hne : .extraInterfaces [] ∉ calls) : ofSettingsChain chain = .ok (.ofBuilderCalls calls) := by
  obtain ⟨first, rest, hcalls, hopens, htexts⟩ := h
  have hsets : List.Forall₂ (flip Sets) calls rest := by
    refine forall₂_of_map_eq htexts.symm fun b hb call htext => ?_
    obtain ⟨hname, hargs⟩ := Prod.mk.inj htext
    exact sets_of_texts hname.symm hargs.symm (ne_of_mem_of_not_mem hb hne)
  exact ofSettingsChain_eq_ok_iff.mpr ⟨first, rest, calls, hcalls, hopens, hsets.flip, rfl⟩

/-- A chain on settings is read just if it is one of new settings with calls that there are, each with the arguments
that it takes, and gives what these calls set one after the other. Otherwise nothing is read, and the first call that
does not fit is named. Settings written as a chain are read. -/
theorem settings_chain_read_iff (chain : Chain) :
    (∀ a, ofSettingsChain chain = .ok a ↔
      ∃ first rest calls, chain.calls = first :: rest ∧ OpensSettings first ∧ List.Forall₂ Sets rest calls ∧
        a = .ofBuilderCalls calls) ∧
    (∀ e, ofSettingsChain chain = .error e ↔ ∃ text, Refused chain.calls text ∧ e = .unsupported text) ∧
    ∀ a : Attributes, Spells chain a.toBuilderCalls →
      "Mockito.withSettings()" ++ laterText chain = a.settingsText ∧
        ofSettingsChain chain = .ok (.ofBuilderCalls a.toBuilderCalls) := by
  refine ⟨fun a => ofSettingsChain_eq_ok_iff, fun e => ?_, fun a hspells => ?_⟩
  · constructor
    · exact exists_refused_of_error
    · rintro ⟨text, hrefused, rfl⟩
      exact hrefused.ofSettingsChain
  · rw [hspells.laterText]
    exact ⟨rfl, hspells.ofSettingsChain a.extraInterfaces_not_mem⟩

theorem settings_chain_read_iff_instances :
    let f := File.read ("import org.mockito.*;class T\x7bObject a=Mockito.withSettings().name(\"x\")" ++
      ".strictness(Strictness.WARN).extraInterfaces(A.class,B.class);" ++
      "Object b=Mockito.withSettings().lenient().name().foo();\x7d")
    let a : Attributes := { name := some "\"x\"", strictness := some .warn, extraInterfaces := ["A.class", "B.class"] }
    ∃ read refused, f.callAt? 102 = some read ∧ f.callAt? 182 = some refused ∧
      Spells (chainOf f read) a.toBuilderCalls ∧ ofSettingsChain (chainOf f read) = .ok a ∧
      Refused (chainOf f refused).calls "name" ∧ ofSettingsChain (chainOf f refused) = .error (.unsupported "name") := by
  intro f a
  have hcomputed : ((f.callAt? 102).any fun read => (f.callAt? 182).any fun refused =>
      (chainOf f read).calls.head?.any (fun first => first.name == "withSettings" &&
        first.receiver == .entry .mockito && first.args.isEmpty) &&
      (chainOf f read).calls.tail.map (fun call => (call.name, call.args.map (·.text))) ==
        a.toBuilderCalls.map (fun b => (b.method, b.argTexts)) &&
      (chainOf f refused).calls.head?.any (·.receiver == .entry .mockito) &&
      (chainOf f refused).calls.map (fun call => (call.name, call.args.isEmpty)) ==
        [("withSettings", true), ("lenient", true), ("name", true), ("foo", true)]) = true := by
    decide +kernel
  obtain ⟨read, hread, hcomputed⟩ := (Option.any_eq_true _ _).mp hcomputed
  obtain ⟨refused, hrefused, hcomputed⟩ := (Option.any_eq_true _ _).mp hcomputed
  simp only [Bool.and_eq_true, beq_iff_eq] at hcomputed
  obtain ⟨⟨⟨hfirst, htexts⟩, hentry⟩, hcalls⟩ := hcomputed
  have hspells : Spells (chainOf f read) a.toBuilderCalls := by
    obtain ⟨first, hhead, hfirst⟩ := (Option.any_eq_true _ _).mp hfirst
    obtain ⟨rest, hcalls⟩ := List.head?_eq_some_iff.mp hhead
    simp only [Bool.and_eq_true, beq_iff_eq, List.isEmpty_iff] at hfirst
    obtain ⟨⟨hname, hreceiver⟩, hargs⟩ := hfirst
    rw [hcalls] at htexts
    exact ⟨first, rest, hcalls, ⟨hname, hreceiver, hargs⟩, htexts⟩
  have hrefuses : Refused (chainOf f refused).calls "name" := by
    simp only [List.map_eq_cons_iff, List.map_eq_nil_iff, Prod.mk.injEq, List.isEmpty_iff] at hcalls
    obtain ⟨first, _, hcalls, ⟨hname, hargs⟩, legal, _, rfl, ⟨hlegal, hlenient⟩, bad, _, rfl, ⟨hbad, hnone⟩, last, _,
      rfl, -, rfl⟩ := hcalls
    rw [hcalls, List.head?_cons, Option.any_some, beq_iff_eq] at hentry
    have hsets : ∀ b, ¬Sets bad b := by
      intro b h
      cases h <;> simp_all
    have hnamed : offence bad = "name" := by simp [offence, hbad, hnone]
    rw [hcalls, ← hnamed]
    change Refused (first :: ([legal] ++ bad :: [last])) _
    exact .setting ⟨hname, hentry, hargs⟩ (List.forall_mem_singleton.mpr ⟨_, .lenient hlegal hlenient⟩) hsets
  refine ⟨read, refused, hread, hrefused, hspells, ?_, hrefuses, ?_⟩
  · have hback : Attributes.ofBuilderCalls a.toBuilderCalls = a := by decide
    exact ((settings_chain_read_iff _).2.2 a hspells).2.trans (congrArg _ hback)
  · exact ((settings_chain_read_iff _).2.1 _).mpr ⟨_, hrefuses, rfl⟩

end MockDialect.Settings
