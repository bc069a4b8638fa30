import Choreographer.SessionMemory

namespace Choreographer.KernelPages

open Choreographer.Lib.SortedMaps Choreographer.Lib.Updates
open Choreographer.Texts Choreographer.Values Choreographer.Agenda Choreographer.MemoryValues
open Choreographer.SessionMemory

def dimensionCeremony : String := "ceremony"
def dimensionRole : String := "role"
def dimensionStrand : String := "strand"

def pageSize : U64 := 500

def maxPages : Nat := 100

/-- How instants are written and read, and JSON is read. -/
structure Formats where
  rfc3339 : OffsetDateTime → Option String
  parseRfc3339 : String → Option OffsetDateTime
  fromStr : String → Option Value

section Texts

def stripPrefix (lead : String) (s : String) : Option String :=
  if lead.toList.isPrefixOf s.toList then some (String.ofList (s.toList.drop lead.toList.length))
  else none

def holdsText (words part : String) : Bool :=
  words.toList.tails.any fun rest => part.toList.isPrefixOf rest

/-- A refusal that says, in words, that nothing is written there. -/
def meansNothingIsWritten (refusal : String) : Bool := holdsText refusal "not found"

def unqualify (kind id : String) : Option String := stripPrefix (kind ++ ":") id

def declaredId (scope : MemoryScope) (returned : String) : String :=
  (stripPrefix ("about:" ++ scope.asStr ++ ":dimension:") returned).getD returned

def entryIdFrom (scope : MemoryScope) (reference : String) : Option MemoryEntryId := do
  let rest ← stripPrefix ("entry:" ++ scope.asStr ++ ":") reference
  (Phrase.new rest).toOption

def kindOf : String → Option MemoryEntryKind
  | "decision" => some .decision
  | "observation" => some .observation
  | "constraint" => some .constraint
  | "outcome" => some .outcome
  | _ => none

def relationKindOf : String → Option MemoryRelationKind
  | "answers" => some .answers
  | "authorizes" => some .authorizes
  | "chosen_because" => some .chosenBecause
  | "achieved_by" => some .achievedBy
  | "derived_from" => some .followsFrom
  | "satisfies_constraint" => some .satisfiesConstraint
  | "violates_constraint" => some .violatesConstraint
  | "supersedes" => some .supersedes
  | "contradicts" => some .contradicts
  | _ => none

/-- A reason that comes back without a degree is read as the middle one. -/
def confidenceOf : Option String → MemoryConfidence
  | some "high" => .high
  | some "low" => .low
  | _ => .medium

end Texts

section Documents

def get (value : Value) (key : String) : Option Value :=
  value.asObject.bind fun entries => (OrdMap.ofList entries).get? key

def getStr (value : Value) (key : String) : Option String := (get value key).bind Value.asStr

def getItems (value : Value) (key : String) : List Value :=
  ((get value key).bind Value.asArray).getD []

def proofItems (document : Value) (key : String) : List Value :=
  (((get document "proof").bind fun proof => get proof key).bind Value.asArray).getD []

variable (formats : Formats) (scope : MemoryScope)

/-- A string that can be read as a document was one. -/
def restore (value : Value) : Value := (value.asStr.bind formats.fromStr).getD value

def detail (value : Value) : Attributes :=
  let entries := ((get value "metadata").bind Value.asObject).getD []
  (Attributes.new (OrdMap.ofList (entries.map fun e => (e.1, restore formats e.2)))).toOption.getD
    Attributes.empty

def evidenceTexts (document : Value) : OrdMap String String :=
  OrdMap.ofList ((proofItems document "evidence").filterMap fun item => do
    let source ← getStr item "source"
    let text ← getStr item "text"
    pure (source, text))

def describedEvidence (document : Value) : OrdMap String Value :=
  OrdMap.ofList ((proofItems document "evidence").filterMap fun item => do
    let id ← getStr item "id"
    let reference ← stripPrefix "detail:" id
    pure (reference, item))

/-- What one edge of the proof says in support of what. -/
def support (document relation : Value) : Option (String × MemoryEvidence) := do
  guard (getStr relation "rel" = some "supports")
  let supported ← getStr relation "to"
  let label ← (getStr relation "evidence").or
    ((getStr relation "from").bind (evidenceTexts document).get?)
  let described := (getStr relation "from").bind (describedEvidence document).get?
  let source := described.bind fun item => getStr item "source"
  let evidence ← (MemoryEvidence.new label source
    ((described.map (detail formats)).getD Attributes.empty)).toOption
  pure (supported, evidence)

def evidenceByEntry (document : Value) : OrdMap String (List MemoryEvidence) :=
  ((proofItems document "path").filterMap (support formats document)).foldl
    (fun attached e => attached.insert e.1 ((attached.get? e.1).getD [] ++ [e.2])) OrdMap.empty

/-- Where the coordinates of an entry place it. -/
structure Placement where
  ceremony : Option String
  role : Option String
  strand : Option String
  observedAt : Option OffsetDateTime

def Placement.nowhere : Placement := ⟨none, none, none, none⟩

/-- The last coordinate of a kind counts, and the first that can be dated. -/
def Placement.take (placement : Placement) (coordinate : Value) : Placement :=
  let scopeId := (getStr coordinate "scope_id").map (declaredId scope)
  let placed := match getStr coordinate "dimension", scopeId with
    | some "ceremony", some id => { placement with ceremony := unqualify dimensionCeremony id }
    | some "role", some id => { placement with role := unqualify dimensionRole id }
    | some "strand", some id => { placement with strand := unqualify dimensionStrand id }
    | _, _ => placement
  match placed.observedAt with
  | some _ => placed
  | none => { placed with
      observedAt := (getStr coordinate "occurred_at").bind formats.parseRfc3339 }

def readEntry (value : Value) (attached : OrdMap String (List MemoryEvidence)) :
    Option (String × MemoryEntry) := do
  let reference ← getStr value "ref"
  let id ← entryIdFrom scope reference
  let kind ← (getStr value "kind").bind kindOf
  let summary ← getStr value "text"
  let placement := (getItems value "coordinates").foldl (Placement.take formats scope)
    Placement.nowhere
  let ceremonyId ← placement.ceremony.bind fun raw => (Text.new raw).toOption
  let observedAt ← placement.observedAt
  let roleId := placement.role.bind fun raw => (Text.new raw).toOption
  let dimension := placement.strand.bind fun raw => (Phrase.new raw).toOption
  let entry ← (MemoryEntry.new id kind summary dimension ⟨ceremonyId, roleId, observedAt⟩
    (detail formats value)).toOption
  match attached.get? reference with
  | some evidence => pure (reference, entry.withEvidence evidence)
  | none => pure (reference, entry)

def relationFrom (edge : Value) : Option MemoryRelation := do
  let kind ← (getStr edge "rel").bind relationKindOf
  let source ← (getStr edge "from").bind (entryIdFrom scope)
  let target ← (getStr edge "to").bind (entryIdFrom scope)
  let why ← getStr edge "why"
  (MemoryRelation.new source target kind why (confidenceOf (getStr edge "confidence"))).toOption

def reasons (document : Value) : List MemoryRelation :=
  (proofItems document "path").filterMap (relationFrom scope)

/-- What one page of a read yields, without what cannot be read. Entries keep the reference they
came back under. -/
structure RecalledPage where
  entries : List (String × MemoryEntry)
  relations : List MemoryRelation
  nextCursor : Option String

def nextCursor (document : Value) : Option String := do
  let page ← get document "page"
  guard ((get page "has_more").bind Value.asBool = some true)
  getStr page "next_cursor"

def readPage (document : Value) : RecalledPage :=
  let attached := evidenceByEntry formats document
  { entries := (getItems document "entries").filterMap fun value =>
      readEntry formats scope value attached
    relations := reasons scope document
    nextCursor := nextCursor document }

end Documents

section Calls

def f64Max : Int := (2 ^ 53 - 1) * 2 ^ 971

variable (formats : Formats) (scope : MemoryScope) (moment : OffsetDateTime)

def timestamp (instant : OffsetDateTime) : Except DomainError String :=
  okOr (formats.rfc3339 instant)
    (.outOfRange "memory.observed_at" (instant.nanos / 1000000000) 0 f64Max)

def gotoArguments (cursor : Option String) : Except DomainError Value := do
  let place ← match cursor with
    | some reference => pure (Value.object [("ref", .string reference)])
    | none => do
      let time ← timestamp formats moment
      pure (Value.object [("time", .string time)])
  pure (.object [("about", .string scope.asStr), ("at", place),
    ("include", .object [("evidence", .bool true), ("relations", .bool true)]),
    ("limit", .object [("entries", .number (.posInt pageSize))])])

inductive KernelAnswer
  | returned (document : Value)
  | refused (words : String)

inductive KernelTransportError
  | unstartable (reason : String)
  | unwelcoming (reason : String)
  | gone
  | silent (seconds : U64)
  | unreadable (reason : String)

def unreachableKernel (_error : KernelTransportError) (_tool : String) : DomainError :=
  .invariantViolated "kmp: the memory kernel could not be reached"

def refused (_refusal _tool : String) : DomainError :=
  .invariantViolated "kmp: the memory kernel refused the call"

abbrev Request := String × Value

/-- A kernel, as far as one read can tell: what it answers when it has been asked these things, the
last of them just now. -/
abbrev Kernel := List Request → Except KernelTransportError KernelAnswer

abbrev Reading := Update DomainError (List Request)

def call (kernel : Kernel) (tool : String) (arguments : Value) : Reading KernelAnswer := do
  modify fun asked => asked ++ [(tool, arguments)]
  check fun asked => (kernel asked).mapError fun e => unreachableKernel e tool

end Calls

section Read

instance : DecidableEq MemoryRelation := fun r s =>
  decidable_of_iff
    ((r.fromEntry, r.toEntry, r.kind, r.why, r.confidence) =
      (s.fromEntry, s.toEntry, s.kind, s.why, s.confidence))
    ⟨fun h => by cases r; cases s; simp only [Prod.mk.injEq] at h; simp [h], fun h => by rw [h]⟩

/-- What a read has gathered. -/
structure Gathered where
  collected : List MemoryEntry
  reasons : List MemoryRelation
  seen : OrdSet String

def Gathered.nothing : Gathered := ⟨[], [], OrdMap.empty⟩

def Gathered.addReason (self : Gathered) (reason : MemoryRelation) : Gathered :=
  if reason ∈ self.reasons then self else { self with reasons := self.reasons ++ [reason] }

/-- What was learned after the moment is passed over, whichever page it is on. -/
def Gathered.addEntry (moment : OffsetDateTime) (self : Gathered) (found : String × MemoryEntry) :
    Gathered :=
  if moment < found.2.provenance.observedAt then self
  else if self.seen.contains found.1 then self
  else { self with
    seen := OrdSet.add found.1 self.seen
    collected := self.collected ++ [found.2] }

def Gathered.addPage (moment : OffsetDateTime) (self : Gathered) (page : RecalledPage) : Gathered :=
  page.entries.foldl (Gathered.addEntry moment) (page.relations.foldl Gathered.addReason self)

/-- Without the reasons that lead to something that was not read. -/
def Gathered.visible (self : Gathered) : List MemoryEntry × List MemoryRelation :=
  (self.collected, InProcessSessionMemory.between self.reasons self.collected)

variable (formats : Formats) (kernel : Kernel) (scope : MemoryScope) (moment : OffsetDateTime)

def turnPages : Nat → Option String → Gathered → Reading (List MemoryEntry × List MemoryRelation)
  | 0, _, gathered => pure gathered.visible
  | left + 1, cursor, gathered => do
    let arguments ← check fun _ => gotoArguments formats scope moment cursor
    let answer ← call kernel "kernel_goto" arguments
    match answer with
    | .refused words =>
      if meansNothingIsWritten words then pure (gathered.collected, gathered.reasons)
      else throw (refused words "kernel_goto")
    | .returned document =>
      let page := readPage formats scope document
      let gathered := gathered.addPage moment page
      match page.nextCursor with
      | some next =>
        if some next ≠ cursor then turnPages left (some next) gathered
        else pure gathered.visible
      | none => pure gathered.visible

def readAsOf : Reading (List MemoryEntry × List MemoryRelation) :=
  turnPages formats kernel scope moment maxPages none Gathered.nothing

end Read

end Choreographer.KernelPages
