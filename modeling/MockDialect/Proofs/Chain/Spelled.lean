import MockDialect.Proofs.Chain.Linked

namespace MockDialect.Chain

open Api Source

/-- A call without its qualifier: what stands before the name, the name, and the arguments. -/
structure Word where
  link : String
  name : String
  argsText : String
  args : List Arg

def Word.text (w : Word) : String := w.link ++ w.name ++ w.argsText

def Call.word (c : Call) : Word := ⟨c.link, c.name, c.argsText, c.args⟩

/-- A call as spelled, qualifier included. -/
def Call.text (c : Call) : String := c.qualifierText?.getD "" ++ c.tail

/-- A chain as spelled. -/
def text (c : Chain) : String := (c.calls.getLast?.map Call.text).getD ""

def Call.Continues (a b : Call) : Prop := b.receiver = a.successor

/-- A call and one that is spelled behind it. -/
structure Call.Chained (a b : Call) : Prop where
  continues : a.Continues b
  qualifier : ∃ span, b.qualifier = some ⟨a.text, span, .call⟩

structure Call.Opens (cls : EntryClass) (a : Call) : Prop where
  receiver : a.receiver = Names.throughClass cls a.name
  qualifier : ∃ span, a.qualifier = some ⟨cls.simpleName, span, .reference⟩

/-- A chain that reads words behind an entry class. -/
structure Spelled (cls : EntryClass) (words : List Word) (c : Chain) : Prop where
  words : c.calls.map Call.word = words
  opens : ∀ a ∈ c.first?, a.Opens cls
  chained : c.calls.IsChain Call.Chained

theorem Call.tail_eq_of_word {a b : Call} (h : a.word = b.word) : a.tail = b.tail := by
  simp only [word, Word.mk.injEq] at h
  rw [tail, tail, h.1, h.2.1, h.2.2.1]

theorem continues_of_follows {calls : List Call} (h : calls.IsChain Call.Follows) :
    calls.IsChain Call.Continues :=
  h.imp fun _ _ hab => hab.receiver

theorem continues_chainOf {f : File} (hf : f.Sound) {place : Java.Cursor} (h : Java.Cursor.In f.tree place) :
    (chainOf f place).calls.IsChain Call.Continues :=
  continues_of_follows (chainOf_follows hf h)

theorem Spelled.continues {cls : EntryClass} {words : List Word} {c : Chain} (h : Spelled cls words c) :
    c.calls.IsChain Call.Continues :=
  h.chained.imp fun _ _ hab => hab.continues

theorem receiver_unknown {a : Call} {calls : List Call} (h : (a :: calls).IsChain Call.Continues)
    (ha : a.successor = .unknown) : ∀ c ∈ calls, c.receiver = .unknown := by
  induction calls generalizing a with
  | nil => exact fun c hc => nomatch hc
  | cons b calls ih =>
    rw [List.isChain_cons_cons] at h
    have hb : b.receiver = .unknown := h.1.trans ha
    intro c hc
    rcases List.mem_cons.mp hc with rfl | hc
    · exact hb
    · exact ih h.2 (by rw [Call.successor, hb]; rfl) c hc

theorem continues_of_getElem? {calls : List Call} {i : Nat} {a b : Call} (h : calls.IsChain Call.Continues)
    (ha : calls[i]? = some a) (hb : calls[i + 1]? = some b) : a.Continues b := by
  obtain ⟨hi, rfl⟩ := List.getElem?_eq_some_iff.mp ha
  obtain ⟨hj, rfl⟩ := List.getElem?_eq_some_iff.mp hb
  exact List.isChain_iff_getElem.mp h i hj

theorem eq_zero_of_receiver {calls : List Call} {i : Nat} {b : Call} {cls : EntryClass}
    (h : calls.IsChain Call.Continues) (hb : calls[i]? = some b) (hreceiver : b.receiver = .entry cls) : i = 0 := by
  cases i with
  | zero => rfl
  | succ i =>
    have hi := (List.getElem?_eq_some_iff.mp hb).1
    have ha := List.getElem?_eq_getElem (l := calls) (i := i) (by omega)
    exact absurd ((continues_of_getElem? h ha hb).symm.trans hreceiver) (Call.successor_ne_entry cls)

theorem text_getLast {a : Call} {calls : List Call} (h : (a :: calls).IsChain Call.Chained) :
    ((a :: calls).getLast (List.cons_ne_nil a calls)).text =
      a.text ++ String.join (calls.map Call.tail) := by
  induction calls generalizing a with
  | nil => simp
  | cons b calls ih =>
    rw [List.isChain_cons_cons] at h
    obtain ⟨span, hq⟩ := h.1.qualifier
    have hb : b.text = a.text ++ b.tail := by simp [Call.text, Call.qualifierText?, hq]
    rw [List.getLast_cons (List.cons_ne_nil b calls), ih h.2, hb, List.map_cons, String.join_cons,
      String.append_assoc]

theorem Spelled.text_eq {cls : EntryClass} {words : List Word} {c : Chain} (h : Spelled cls words c)
    (hne : words ≠ []) : c.text = cls.simpleName ++ String.join (words.map Word.text) := by
  obtain ⟨calls⟩ := c
  cases calls with
  | nil => exact absurd h.words.symm hne
  | cons a calls =>
    obtain ⟨span, hq⟩ := (h.opens a rfl).qualifier
    have ha : a.text = cls.simpleName ++ a.tail := by simp [Call.text, Call.qualifierText?, hq]
    have htails : words.map Word.text = (a :: calls).map Call.tail := by
      rw [← h.words, List.map_map]
      rfl
    rw [Chain.text, List.getLast?_eq_some_getLast (List.cons_ne_nil a calls), Option.map_some,
      Option.getD_some, text_getLast h.chained, ha, htails, List.map_cons, String.join_cons,
      String.append_assoc]

/-- The call that reads a word behind another call. -/
def Call.chain (a : Call) (w : Word) : Call where
  name := w.name
  span := ⟨0, 0⟩
  nameSpan := ⟨0, 0⟩
  argsSpan := ⟨0, 0⟩
  argsText := w.argsText
  args := w.args
  qualifier := some ⟨a.text, ⟨0, 0⟩, .call⟩
  link := w.link
  receiver := a.successor

theorem exists_chained (a : Call) (words : List Word) :
    ∃ calls, calls.map Call.word = words ∧ (a :: calls).IsChain Call.Chained := by
  induction words generalizing a with
  | nil => exact ⟨[], rfl, .singleton a⟩
  | cons w words ih =>
    obtain ⟨calls, hwords, hchained⟩ := ih (a.chain w)
    refine ⟨a.chain w :: calls, by rw [List.map_cons, hwords]; rfl, .cons_cons ⟨rfl, ⟨⟨0, 0⟩, rfl⟩⟩ hchained⟩

theorem exists_spelled (cls : EntryClass) (words : List Word) : ∃ c, Spelled cls words c := by
  cases words with
  | nil => exact ⟨⟨[]⟩, rfl, fun _ ha => (nomatch ha), .nil⟩
  | cons w words =>
    let a : Call := ⟨w.name, ⟨0, 0⟩, ⟨0, 0⟩, ⟨0, 0⟩, w.argsText, w.args,
      some ⟨cls.simpleName, ⟨0, 0⟩, .reference⟩, w.link, Names.throughClass cls w.name⟩
    obtain ⟨calls, hwords, hchained⟩ := exists_chained a words
    refine ⟨⟨a :: calls⟩, by rw [List.map_cons, hwords]; rfl, fun b hb => ?_, hchained⟩
    obtain rfl := Option.some.inj hb
    exact ⟨rfl, ⟨0, 0⟩, rfl⟩

end MockDialect.Chain
