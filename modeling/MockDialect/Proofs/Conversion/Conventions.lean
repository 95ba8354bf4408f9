import MockDialect.Proofs.Conversion.Frame
import MockDialect.Proofs.Recognition.Exclusive

namespace MockDialect

open Api Chain Java

theorem Api.Receiver.result_eq_inOrder {r : Receiver} {method : String} (h : r.result method = some .inOrder) :
    r = .entry .mockito ∧ method = "inOrder" := by
  cases r with
  | entry cls => cases cls <;> grind [result, staticResult]
  | object type => cases type <;> grind [result, methodResult]
  | unknown => cases h

namespace Chain

variable {a : Call}

theorem Call.successor_eq_inOrder (h : a.successor = .object .inOrder) :
    a.receiver = .entry .mockito ∧ a.name = "inOrder" := by
  unfold Call.successor at h
  split at h
  case h_1 type htype =>
    obtain rfl : type = .inOrder := Receiver.object.inj h
    exact Receiver.result_eq_inOrder htype
  case h_2 => cases h

/-- A call made on what no entry of a chain is made on. -/
structure Call.Onward (c : Call) : Prop where
  entry : ∀ cls, c.receiver ≠ .entry cls
  inOrder : c.receiver ≠ .object .inOrder

theorem Call.Onward.next {b : Call} (hb : b.receiver = a.successor) (ha : a.successor ≠ .object .inOrder) :
    b.Onward ∧ b.successor ≠ .object .inOrder := by
  refine ⟨⟨fun cls => ?_, ?_⟩, fun hsuccessor => ?_⟩
  · rw [hb]
    exact Call.successor_ne_entry cls
  · rwa [hb]
  · obtain ⟨hreceiver, -⟩ := Call.successor_eq_inOrder hsuccessor
    exact Call.successor_ne_entry _ (hb.symm.trans hreceiver)

theorem onward_of_continues {calls : List Call} (h : (a :: calls).IsChain Call.Continues)
    (ha : a.successor ≠ .object .inOrder) : ∀ c ∈ calls, c.Onward := by
  induction calls generalizing a with
  | nil => exact nofun
  | cons b calls ih =>
    rw [List.isChain_cons_cons] at h
    obtain ⟨hb, hsuccessor⟩ := Call.Onward.next h.1 ha
    intro c hc
    rcases List.mem_cons.mp hc with rfl | hc
    · exact hb
    · exact ih h.2 hsuccessor c hc

end Chain

namespace Recognition

variable {chain : Chain} {first : Call} {convention : Convention} {d : Dialect}

theorem Convention.forbids_onward {c : Call} (h : c.Onward) : convention.forbids c = false := by
  cases convention with
  | mockito => simpa [forbids] using h.entry .bddMockito
  | bddMockito =>
    have hentry : Verification.Dialect.inOrderVerify.isEntry c = false := by
      rw [← Bool.not_eq_true]
      intro hentry
      exact h.inOrder (Verification.Dialect.opening_of_isEntry hentry).2
    simp [forbids, hentry, h.entry .mockito]

theorem isViolatedBy_eq (hfirst : chain.first? = some first) (hcontinues : chain.calls.IsChain Call.Continues)
    (hname : first.name ≠ "inOrder") : convention.isViolatedBy chain = convention.forbids first := by
  obtain ⟨calls⟩ := chain
  obtain ⟨rest, rfl⟩ : ∃ rest, calls = first :: rest := List.head?_eq_some_iff.mp hfirst
  have hrest : rest.any convention.forbids = false := by
    rw [List.any_eq_false]
    intro c hc
    rw [Bool.not_eq_true]
    exact Convention.forbids_onward
      (onward_of_continues hcontinues (fun h => hname (Call.successor_eq_inOrder h).2) c hc)
  rw [Convention.isViolatedBy, List.any_cons, hrest, Bool.or_false]

def Convention.otherClass : Convention → EntryClass
  | mockito => .bddMockito
  | bddMockito => .mockito

def Convention.otherFamily : Convention → Family
  | mockito => .bdd
  | bddMockito => .mockito

theorem forbids_entry {cls : EntryClass} (hreceiver : first.receiver = .entry cls)
    (haction : cls = .mockito → first.name ∈ mockitoActions) :
    convention.forbids first = true ↔ cls = convention.otherClass := by
  have hentry : Verification.Dialect.inOrderVerify.isEntry first = false := by
    rw [← Bool.not_eq_true]
    intro hentry
    cases hreceiver.symm.trans (Verification.Dialect.opening_of_isEntry hentry).2
  cases cls with
  | mockito => cases convention <;> simp [Convention.forbids, Convention.otherClass, hreceiver, hentry, haction rfl]
  | bddMockito => cases convention <;> simp [Convention.forbids, Convention.otherClass, hreceiver, hentry]

theorem forbids_object {type : ApiType} (hreceiver : first.receiver = .object type) :
    convention.forbids first = true ↔
      Verification.Dialect.inOrderVerify.isEntry first = true ∧ convention = .bddMockito := by
  cases convention <;> simp [Convention.forbids, hreceiver]

/-- What a chain of a dialect begins with, as far as conventions see it. -/
structure Dialect.Leads (d : Dialect) (first : Call) : Prop where
  name : first.name ≠ "inOrder"
  forbids : ∀ convention : Convention, convention.forbids first = true ↔ d.family = convention.otherFamily

theorem setterName_mem_mockitoActions {d : Stubbing.Dialect} {setter : Stubbing.Setter} {method : String}
    (horder : d.order = .actionFirst) (hclass : d.entryClass = .mockito) (h : d.setterName setter = some method) :
    method ∈ mockitoActions := by
  cases d <;> cases horder <;> cases hclass
  cases setter <;> cases h <;> decide

theorem setterName_ne_inOrder (d : Stubbing.Dialect) (setter : Stubbing.Setter) :
    d.setterName setter ≠ some "inOrder" := by
  cases d <;> cases setter <;> decide

theorem leads_stubbing {d : Stubbing.Dialect} (h : d.begins chain = true) :
    ∃ first, chain.first? = some first ∧ (Dialect.stubbing d).Leads first := by
  obtain ⟨first, hfirst, hreceiver, hname⟩ := Stubbing.Dialect.first_of_begins h
  -- either the call that takes the mock or the first setter
  have hnamed : first.name ≠ "inOrder" ∧ (d.entryClass = .mockito → first.name ∈ mockitoActions) := by
    cases horder : d.order with
    | mockFirst =>
      rw [horder] at hname
      rw [show first.name = d.entryName from hname]
      cases d <;> decide
    | actionFirst =>
      rw [horder] at hname
      obtain ⟨setter, hsetter⟩ := hname
      exact ⟨fun hinOrder => setterName_ne_inOrder d setter (hinOrder ▸ hsetter),
        fun hclass => setterName_mem_mockitoActions horder hclass hsetter⟩
  refine ⟨first, hfirst, hnamed.1, fun convention => ?_⟩
  rw [forbids_entry hreceiver hnamed.2]
  cases d <;> cases convention <;> decide

theorem leads_verification {d : Verification.Dialect} (h : d.begins chain = true) :
    ∃ first, chain.first? = some first ∧ (Dialect.verification d).Leads first := by
  obtain ⟨first, hfirst, hentry⟩ := Verification.Dialect.isEntry_of_begins h
  obtain ⟨hname, hreceiver⟩ := Verification.Dialect.opening_of_isEntry hentry
  refine ⟨first, hfirst, ?_, fun convention => ?_⟩
  · rw [hname]
    cases d <;> decide
  · cases d with
    | mockitoVerify =>
      rw [forbids_entry hreceiver fun _ => hname ▸ by decide]
      cases convention <;> decide
    | thenShould =>
      rw [forbids_entry hreceiver nofun]
      cases convention <;> decide
    | inOrderVerify =>
      rw [forbids_object hreceiver]
      cases convention <;> simp [hentry, Dialect.family, Verification.Dialect.family, Convention.otherFamily]
    | inOrderVerifyStatic | staticVerify =>
      have hother : Verification.Dialect.inOrderVerify.isEntry first = false := by
        rw [← Bool.not_eq_true]
        intro hother
        cases Verification.Dialect.isEntry_unique hentry hother
      rw [forbids_object hreceiver]
      cases convention <;> simp [hother, Dialect.family, Verification.Dialect.family, Convention.otherFamily]

theorem isViolatedBy_iff (hcontinues : chain.calls.IsChain Call.Continues) (hclass : classify? chain = some d) :
    convention.isViolatedBy chain = true ↔ d.family = convention.otherFamily := by
  have hbegins := classify?_eq_some_iff.mp hclass
  obtain ⟨first, hfirst, hleads⟩ : ∃ first, chain.first? = some first ∧ d.Leads first := by
    cases d with
    | stubbing d => exact leads_stubbing hbegins
    | verification d => exact leads_verification hbegins
  rw [isViolatedBy_eq hfirst hcontinues hleads.name, hleads.forbids]

theorem not_allows_otherFamily {policy : Policy} (h : policy.enforced = some convention) :
    policy.allows convention.otherFamily = false := by
  cases convention <;> simp [Convention.otherFamily, Policy.allows, h]

end Recognition

namespace Conversion

open Edit Recognition Source

/-- The dialect of the chains that a conversion makes. -/
def Target.dialect : Target → Dialect
  | stubbing d => .stubbing d
  | verification t => .verification t.dialect

theorem Target.family_dialect (target : Target) : target.dialect.family = target.family := by
  cases target <;> rfl

/-- A chain that reads what stands in the place of a site once a plan is carried out. -/
structure Site.BecomesIn (f : File) (plan : Plan) (dialect : Dialect) (site : Site) (chain : Chain) : Prop where
  spelled : ∃ e ∈ plan.edits, site.Rewritten dialect e ∧
    chain.text = e.replacement ++ f.spanText ⟨e.span.stop, site.chain.span.stop⟩
  chained : chain.calls.IsChain Call.Chained

variable {p : Planner} {selection : Selection} {target : Target} {plan : Plan} {convention : Convention}

theorem allows_of_plan (h : p.plan selection target = .ok plan) : p.policy.allows target.family = true := by
  obtain ⟨selected, -, -, hplan⟩ := plan_eq_ok.mp h
  rw [planSelected_eq] at hplan
  split at hplan
  case isTrue hallows => exact hallows
  case isFalse => cases hplan

theorem not_violated_of_plan (h : p.plan selection target = .ok plan) (henforced : p.policy.enforced = some convention)
    {chain : Chain} (hcontinues : chain.calls.IsChain Call.Continues)
    (hclass : classify? chain = some target.dialect) : convention.isViolatedBy chain = false := by
  rw [← Bool.not_eq_true, isViolatedBy_iff hcontinues hclass, target.family_dialect]
  intro hfamily
  have hallows := allows_of_plan h
  rw [hfamily, not_allows_otherFamily henforced] at hallows
  cases hallows

theorem conventions_agree_with_classification (f : File) (hf : f.Sound) :
    (∀ place d, Cursor.In f.tree place → classify? (chainOf f place) = some d →
      (Convention.mockito.isViolatedBy (chainOf f place) = true ↔ d.family = .bdd) ∧
        (Convention.bddMockito.isViolatedBy (chainOf f place) = true ↔ d.family = .mockito)) ∧
    ∀ (policy : Policy) (base : String) (selection : Selection) (target : Target) (plan : Plan)
      (convention : Convention), policy.enforced = some convention →
      Planner.plan ⟨f, policy, base⟩ selection target = .ok plan →
        (∀ selected, select f selection = .ok selected → ∀ site ∈ selected.sites, ∀ chain,
          site.BecomesIn f plan selected.dialect chain → classify? chain = some target.dialect →
            convention.isViolatedBy chain = false) ∧
        ∀ after : File, after.Sound → plan.apply f.source = .ok after.source → ∀ place, Cursor.In after.tree place →
          classify? (chainOf after place) = some target.dialect →
            convention.isViolatedBy (chainOf after place) = false := by
  refine ⟨fun place d hplace hclass => ?_, fun policy base selection target plan convention henforced hplan => ?_⟩
  · have hcontinues := continues_chainOf hf hplace
    exact ⟨isViolatedBy_iff hcontinues hclass, isViolatedBy_iff hcontinues hclass⟩
  · refine ⟨fun selected _ site _ chain hbecomes hclass => ?_, fun after hafter _ place hplace hclass => ?_⟩
    · exact not_violated_of_plan hplan henforced (hbecomes.chained.imp fun _ _ h => h.continues) hclass
    · exact not_violated_of_plan hplan henforced (continues_chainOf hafter hplace) hclass

theorem conventions_agree_with_classification_new_head :
    let text := "import org.mockito.*;class T\x7b\x7bBDDMockito.then(a).should().b(1);\x7d\x7d"
    let p : Planner := ⟨File.read text, ⟨some .mockito⟩, "order"⟩
    let verify : Call := ⟨"verify", ⟨0, 17⟩, ⟨8, 14⟩, ⟨14, 17⟩, "(a)", [⟨"a", ⟨15, 16⟩, .reference, none⟩],
      some ⟨"Mockito", ⟨0, 7⟩, .reference⟩, ".", .entry .mockito⟩
    let verified : Call := ⟨"b", ⟨0, 22⟩, ⟨18, 19⟩, ⟨19, 22⟩, "(1)", [⟨"1", ⟨20, 21⟩, .other, none⟩],
      some ⟨"Mockito.verify(a)", ⟨0, 17⟩, .call⟩, ".", .unknown⟩
    ∃ place selected site plan result, Cursor.In p.file.tree place ∧
      Convention.mockito.isViolatedBy (chainOf p.file place) = true ∧
      select p.file (.caret 40) = .ok selected ∧ site ∈ selected.sites ∧
      p.plan (.caret 40) (.verification .mockitoVerify) = .ok plan ∧ plan.apply text = .ok result ∧
      site.BecomesIn p.file plan selected.dialect ⟨[verify, verified]⟩ ∧
      Convention.mockito.isViolatedBy ⟨[verify, verified]⟩ = false ∧
      ∃ place', Cursor.In (File.read result).tree place' ∧
        Convention.mockito.isViolatedBy (chainOf (File.read result) place') = false := by
  intro text p verify verified
  have hcomputed : (p.file.callAt? 40).any (fun place =>
      classify? (chainOf p.file place) == some (.verification .thenShould) &&
      (select p.file (.caret 40)).toOption.any fun selected => selected.sites.any fun site =>
        (p.plan (.caret 40) (.verification .mockitoVerify)).toOption.any fun plan =>
          plan.edits.any (fun e => rewrittenPart? selected.dialect site.chain == some e.span &&
            e.span.start == site.chain.span.start && decide (e.span.start < e.span.stop) &&
            decide (e.span.stop ≤ site.chain.span.stop) &&
            Chain.text ⟨[verify, verified]⟩ ==
              e.replacement ++ p.file.spanText ⟨e.span.stop, site.chain.span.stop⟩) &&
          (plan.apply text).toOption.any fun result => ((File.read result).callAt? 40).any fun place' =>
            classify? (chainOf (File.read result) place') == some (.verification .mockitoVerify)) = true := by
    decide +kernel
  obtain ⟨place, hfound, hcomputed⟩ := (Option.any_eq_true _ _).mp hcomputed
  obtain ⟨hclass, hcomputed⟩ := Bool.and_eq_true_iff.mp hcomputed
  obtain ⟨selected, hselect, hcomputed⟩ := (Option.any_eq_true _ _).mp hcomputed
  obtain ⟨site, hsite, hcomputed⟩ := List.any_eq_true.mp hcomputed
  obtain ⟨plan, hplan, hcomputed⟩ := (Option.any_eq_true _ _).mp hcomputed
  obtain ⟨hedit, hcomputed⟩ := Bool.and_eq_true_iff.mp hcomputed
  obtain ⟨e, he, hedit⟩ := List.any_eq_true.mp hedit
  obtain ⟨result, hresult, hcomputed⟩ := (Option.any_eq_true _ _).mp hcomputed
  obtain ⟨place', hfound', hclass'⟩ := (Option.any_eq_true _ _).mp hcomputed
  simp only [Bool.and_eq_true, beq_iff_eq, decide_eq_true_eq] at hclass hedit hclass'
  obtain ⟨⟨⟨⟨hpart, hstarts⟩, hnonempty⟩, hstops⟩, htext⟩ := hedit
  obtain ⟨hplace, -⟩ := (Cursor.In.innermost .root).nearest hfound
  obtain ⟨hplace', -⟩ := (Cursor.In.innermost .root).nearest hfound'
  have hbecomes : site.BecomesIn p.file plan selected.dialect ⟨[verify, verified]⟩ :=
    ⟨⟨e, he, ⟨hpart, hstarts, hnonempty, hstops⟩, htext⟩, .cons_cons ⟨rfl, ⟨0, 17⟩, rfl⟩ (.singleton _)⟩
  replace hselect := eq_ok_of_toOption hselect
  replace hplan := eq_ok_of_toOption hplan
  replace hresult := eq_ok_of_toOption hresult
  have happlied : plan.apply p.file.source = .ok (File.read result).source := by
    rw [File.source_read, File.source_read, hresult]
  obtain ⟨hviolated, hplanned⟩ := conventions_agree_with_classification p.file (File.read_sound text)
  obtain ⟨hnew, hreread⟩ := hplanned ⟨some .mockito⟩ "order" _ _ plan .mockito rfl hplan
  exact ⟨place, selected, site, plan, result, hplace, (hviolated place _ hplace hclass).1.mpr rfl, hselect, hsite,
    hplan, hresult, hbecomes, hnew selected hselect site hsite _ hbecomes (by decide), place', hplace',
    hreread (File.read result) (File.read_sound result) happlied place' hplace' hclass'⟩

end Conversion

end MockDialect
