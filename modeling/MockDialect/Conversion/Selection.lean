import MockDialect.Conversion.Rejection

namespace MockDialect.Conversion

open Chain Java Recognition Source Text

inductive Selection where
  | caret (offset : Nat)
  | range (span : Span)

/-- A chain and where its statement begins. -/
structure Site where
  chain : Chain
  statementStart : Nat

/-- The selected chains, all of one dialect and in source order. -/
structure Selected where
  dialect : Dialect
  sites : List Site
  bulk : Bool

def siteOf (f : File) (call : Cursor) : Site :=
  let chain := chainOf f call
  ⟨chain, match (outermostCall call).statement? with
    | some statement => statement.span.start
    | none => chain.span.start⟩

def readStatement (f : File) (statement : Cursor) : Except Rejection (Dialect × Site) :=
  match chainOfStatement? f statement with
  | none => .error .notClassified
  | some chain =>
    match classify? chain with
    | none => .error .notClassified
    | some dialect => .ok (dialect, ⟨chain, statement.span.start⟩)

def readStatementIn (f : File) (dialect : Dialect) (statement : Cursor) : Except Rejection Site :=
  match readStatement f statement with
  | .error rejection => .error rejection
  | .ok (other, site) => if other = dialect then .ok site else .error (.mixedDialects dialect other)

def selectAt (f : File) (offset : Nat) : Except Rejection Selected :=
  match (callsAround (f.placeAt offset)).findSome? fun call =>
      (classify? (chainOf f call)).map fun dialect => (dialect, siteOf f call) with
  | some (dialect, site) => .ok ⟨dialect, [site], false⟩
  | none => .error .notClassified

def selectRange (f : File) (span : Span) : Except Rejection Selected :=
  match f.statementsIn span with
  | [] => .error .emptySelection
  | first :: rest => do
    let (dialect, site) ← readStatement f first
    let sites ← rest.mapM (readStatementIn f dialect)
    return ⟨dialect, site :: sites, true⟩

def select (f : File) : Selection → Except Rejection Selected
  | .caret offset => selectAt f offset
  | .range span => selectRange f span

def validate (selected : Selected) : Except Rejection Unit :=
  match selected.sites.findSome? fun site => selected.dialect.flaw? site.chain with
  | some flaw => .error (.invalid selected.dialect flaw)
  | none => .ok ()

def mockedStaticSite? (f : File) (statement : Cursor) : Option Site :=
  match chainOfStatement? f statement with
  | some chain =>
    if Stubbing.isMockedStaticStubbing chain then some ⟨chain, statement.span.start⟩ else none
  | none => none

def selectMockedStatic? (f : File) : Selection → Option (List Site)
  | .caret offset =>
    ((callsAround (f.placeAt offset)).map (chainOf f)).find? Stubbing.isMockedStaticStubbing |>.map
      fun chain => [⟨chain, chain.span.start⟩]
  | .range span =>
    match (f.statementsIn span).mapM (mockedStaticSite? f) with
    | some [] => none
    | sites => sites

end MockDialect.Conversion
