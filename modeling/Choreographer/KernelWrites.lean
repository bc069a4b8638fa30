import Choreographer.JsonFrames
import Choreographer.KernelDetails
import Choreographer.KernelReferences
import Choreographer.Lib.Pairings

namespace Choreographer.KernelWrites

open Choreographer.Lib.SortedMaps Choreographer.Lib.Updates Choreographer.Lib.Padding
open Choreographer.Lib.Pairings
open Choreographer.Texts Choreographer.Values Choreographer.Agenda Choreographer.MemoryValues
open Choreographer.SessionMemory Choreographer.KernelPages Choreographer.KernelDetails
open Choreographer.KernelReferences Choreographer.EvidenceGates Choreographer.JsonFrames

section Names

def dimensionSession : String := "session"

def kindLabel : MemoryEntryKind → String
  | .decision => "decision"
  | .observation => "observation"
  | .constraint => "constraint"
  | .outcome => "outcome"

def confidenceLabel : MemoryConfidence → String
  | .high => "high"
  | .medium => "medium"
  | .low => "low"

def kernelRelation : MemoryRelationKind → String × String
  | .answers => ("answers", "procedural")
  | .authorizes => ("authorizes", "causal")
  | .chosenBecause => ("chosen_because", "motivational")
  | .achievedBy => ("achieved_by", "procedural")
  | .followsFrom => ("derived_from", "causal")
  | .satisfiesConstraint => ("satisfies_constraint", "constraint")
  | .violatesConstraint => ("violates_constraint", "constraint")
  | .supersedes => ("supersedes", "evidential")
  | .contradicts => ("contradicts", "evidential")

/-- A dimension id says what kind of thing it names. -/
def qualify (kind value : String) : String := kind ++ ":" ++ value

def evidenceRef (scope : MemoryScope) (id : MemoryEntryId) (ordinal : Nat) : String :=
  "evidence:" ++ scope.asStr ++ ":" ++ id.asStr ++ ":" ++ ordinal.repr

theorem kindOf_kindLabel (kind : MemoryEntryKind) : kindOf (kindLabel kind) = some kind := by
  cases kind <;> rfl

theorem confidenceOf_confidenceLabel (confidence : MemoryConfidence) :
    confidenceOf (some (confidenceLabel confidence)) = confidence := by
  cases confidence <;> rfl

theorem relationKindOf_kernelRelation (kind : MemoryRelationKind) :
    relationKindOf (kernelRelation kind).1 = some kind := by
  cases kind <;> rfl

theorem unqualify_qualify (kind value : String) : unqualify kind (qualify kind value) = some value :=
  stripPrefix_append _ _

theorem evidenceRef_injective (scope : MemoryScope) {id id' : MemoryEntryId} {n n' : Nat}
    (h : evidenceRef scope id n = evidenceRef scope id' n') : id = id' ∧ n = n' := by
  have hlist : ("evidence:" ++ scope.asStr ++ ":" ++ id.asStr).toList ++ ':' :: n.repr.toList =
      ("evidence:" ++ scope.asStr ++ ":" ++ id'.asStr).toList ++ ':' :: n'.repr.toList := by
    simpa [evidenceRef] using congrArg String.toList h
  obtain ⟨hid, hn⟩ := last_sep_split (notMem_repr (by decide) n) (notMem_repr (by decide) n') hlist
  constructor
  · apply Phrase.ext
    rw [String.toList_inj] at hid
    simpa [String.append_right_inj] using hid
  · exact repr_injective (String.toList_inj.mp hn)

end Names

section Ingest

variable (formats : Formats) (toString : Value → String) (scope : MemoryScope)

/-- What an entry is placed on, each as a dimension and the id of it: the session, the
ceremony it came out of, the role that saw it and its own strand. -/
def axes (entry : MemoryEntry) : List (String × String) :=
  [(dimensionSession, qualify dimensionSession scope.asStr),
    (dimensionCeremony, qualify dimensionCeremony entry.provenance.ceremonyId.asStr)] ++
  (entry.provenance.roleId.map fun role =>
    (dimensionRole, qualify dimensionRole role.asStr)).toList ++
  (entry.dimension.map fun strand =>
    (dimensionStrand, qualify dimensionStrand strand.asStr)).toList

def coordinate (sequence : Nat) (occurredAt : String) (axis : String × String) : Value :=
  json [("dimension", .string axis.1), ("scope_id", .string axis.2), ("sequence", jsonNat sequence),
    ("occurred_at", .string occurredAt)]

def declaration (axis : String × String) : Value :=
  json [("id", .string axis.2), ("kind", .string axis.1)]

def declare (dimensions : OrdMap String Value) (axis : String × String) : OrdMap String Value :=
  if dimensions.contains axis.2 then dimensions else dimensions.insert axis.2 (declaration axis)

def entryItem (sequence : Nat) (occurredAt : String) (entry : MemoryEntry) : Value :=
  json [("id", .string (entryRef scope entry.id)), ("kind", .string (kindLabel entry.kind)),
    ("text", .string entry.summary.asStr),
    ("coordinates", .array ((axes scope entry).map (coordinate sequence occurredAt))),
    ("metadata", metadata (flatten toString entry.detail))]

def evidenceItem (entry : MemoryEntry) (e : MemoryEvidence × Nat) : Value :=
  json ([("id", .string (evidenceRef scope entry.id e.2)), ("text", .string e.1.label.asStr),
    ("supports", .array [.string (entryRef scope entry.id)]),
    ("metadata", metadata (flatten toString e.1.detail))] ++
    (e.1.sourceId.map fun source => ("source", Value.string source)).toList)

def evidenceItems (entry : MemoryEntry) : List Value :=
  entry.evidence.zipIdx.map (evidenceItem toString scope entry)

def reason (relation : MemoryRelation) : Value :=
  json [("from", .string (entryRef scope relation.fromEntry)),
    ("to", .string (entryRef scope relation.toEntry)),
    ("rel", .string (kernelRelation relation.kind).1),
    ("class", .string (kernelRelation relation.kind).2), ("why", .string relation.why.asStr),
    ("confidence", .string (confidenceLabel relation.confidence))]

/-- What is put together of a write, one entry after the other. -/
structure Ingest where
  dimensions : OrdMap String Value
  entries : List Value
  evidence : List Value

def Ingest.begin : Ingest :=
  ⟨declare OrdMap.empty (dimensionSession, qualify dimensionSession scope.asStr), [], []⟩

def Ingest.add (ingest : Ingest) (e : MemoryEntry × Nat) : Except DomainError Ingest := do
  let observedAt ← timestamp formats e.1.provenance.observedAt
  pure ⟨(axes scope e.1).foldl declare ingest.dimensions,
    ingest.entries ++ [entryItem toString scope (e.2 + 1) observedAt e.1],
    ingest.evidence ++ evidenceItems toString scope e.1⟩

def memoryOf (ingest : Ingest) (write : MemoryWrite) : Value :=
  json [("dimensions", .array ingest.dimensions.values), ("entries", .array ingest.entries),
    ("evidence", .array ingest.evidence),
    ("relations", .array (write.relations.map (reason scope)))]

/-- When the first thing of a write was observed, if it has anything but reasons. -/
def firstObserved (write : MemoryWrite) : Except DomainError String :=
  match write.entries.head? with
  | some entry => timestamp formats entry.provenance.observedAt
  | none => .ok ""

def ingestArguments (write : MemoryWrite) (idempotencyKey : String) : Except DomainError Value := do
  let ingest ← write.entries.zipIdx.foldlM (Ingest.add formats toString scope) (Ingest.begin scope)
  let observedAt ← firstObserved formats write
  pure (json [("about", .string scope.asStr), ("idempotency_key", .string idempotencyKey),
    ("memory", memoryOf scope ingest write),
    ("provenance", json [("source_kind", .string "agent"), ("source_agent", .string "choreographer"),
      ("observed_at", .string observedAt)])])

/-- A refusal that says, in words, that the write was already made. -/
def meansAlreadyRemembered (refusal : String) : Bool :=
  holdsText refusal "idempotency key" && holdsText refusal "already accepted"

def remember (kernel : Kernel) (write : MemoryWrite) (idempotencyKey : String) :
    Reading MemoryWriteOutcome := do
  check fun _ => require (trim idempotencyKey ≠ "") (.emptyField "memory.idempotency_key")
  let arguments ← check fun _ => ingestArguments formats toString scope write idempotencyKey
  let answer ← call kernel "kernel_ingest" arguments
  match answer with
  | .returned _ => pure .remembered
  | .refused words =>
    if meansAlreadyRemembered words then pure .alreadyRemembered
    else throw (refused words "kernel_ingest")

def traceArguments (source target : MemoryEntryId) : Value :=
  json [("from", .string (entryRef scope source)), ("to", .string (entryRef scope target))]

/-- The chain a trace came back with, in the order it connects. -/
def readChain (document : Value) : List MemoryRelation :=
  (getItems document "trace").filterMap (relationFrom scope)

def follow (kernel : Kernel) (source target : MemoryEntryId) : Reading MemoryRecollection := do
  let answer ← call kernel "kernel_trace" (traceArguments scope source target)
  match answer with
  | .returned document => pure (.recalled [] (readChain scope document))
  | .refused words =>
    if meansNothingIsWritten words then pure (.recalled [] [])
    else throw (refused words "kernel_trace")

end Ingest

section Fields

variable (toString : Value → String) (scope : MemoryScope)

theorem getStr_json (fields : List (String × Value)) (key : String) :
    getStr (json fields) key = ((OrdMap.ofList fields).get? key).bind Value.asStr := by
  rw [getStr, get_json]

theorem getItems_json (fields : List (String × Value)) (key : String) :
    getItems (json fields) key = (((OrdMap.ofList fields).get? key).bind Value.asArray).getD [] := by
  rw [getItems, get_json]

theorem relationFrom_reason (relation : MemoryRelation) :
    relationFrom scope (reason scope relation) = some relation := by
  have hwhy : Phrase.new relation.why.asStr = .ok relation.why :=
    Phrase.new_eq_ok.mpr relation.why.valid
  simp [relationFrom, reason, getStr_json, OrdMap.ofList, OrdMap.get?_insert, Value.asStr,
    relationKindOf_kernelRelation, entryIdFrom_entryRef, confidenceOf_confidenceLabel,
    MemoryRelation.new, relation.apart, hwhy, Except.toOption]

end Fields

section Shown

/-- How a kernel gives back a coordinate: its scope id is namespaced by the memory it
belongs to. -/
structure ShowsCoordinate (scope : MemoryScope) (given back : Value) : Prop where
  dimension : get back "dimension" = get given "dimension"
  scopeId : ∀ id, getStr given "scope_id" = some id →
    getStr back "scope_id" = some ("about:" ++ scope.asStr ++ ":dimension:" ++ id)
  occurredAt : get back "occurred_at" = get given "occurred_at"

structure ShowsEntry (scope : MemoryScope) (given back : Value) : Prop where
  ref : get back "ref" = get given "id"
  kind : get back "kind" = get given "kind"
  text : get back "text" = get given "text"
  metadata : get back "metadata" = get given "metadata"
  coordinates : List.Forall₂ (ShowsCoordinate scope) (getItems given "coordinates")
    (getItems back "coordinates")

/-- The evidence of a proof is described under its reference. -/
structure ShowsEvidence (given back : Value) : Prop where
  id : ∀ id, getStr given "id" = some id → getStr back "id" = some ("detail:" ++ id)
  source : get back "source" = get given "source"
  metadata : get back "metadata" = get given "metadata"

/-- And an edge of it says what the evidence supports. -/
structure ShowsSupport (given edge : Value) : Prop where
  source : get edge "from" = get given "id"
  target : ∀ target, getItems given "supports" = [target] → get edge "to" = some target
  evidence : get edge "evidence" = get given "text"

def isReason (edge : Value) : Bool := ((getStr edge "rel").bind relationKindOf).isSome

def isSupport (edge : Value) : Bool := decide (getStr edge "rel" = some "supports")

/-- A page that shows the memory of one write. Of the edges that are neither reasons nor
evidence nothing is asked. -/
structure Shows (scope : MemoryScope) (memory page : Value) : Prop where
  entries : List.Forall₂ (ShowsEntry scope) (getItems memory "entries") (getItems page "entries")
  reasons : (proofItems page "path").filter isReason = getItems memory "relations"
  supports : List.Forall₂ ShowsSupport (getItems memory "evidence")
    ((proofItems page "path").filter isSupport)
  evidence : List.Forall₂ ShowsEvidence (getItems memory "evidence") (proofItems page "evidence")

def backDetail (formats : Formats) (toString : Value → String) (attributes : Attributes) :
    Attributes :=
  ⟨attributes.entries.mapValues (comesBack formats toString),
    checkAttributes_mapValues attributes (comesBack formats toString)⟩

def backEvidence (formats : Formats) (toString : Value → String) (evidence : MemoryEvidence) :
    MemoryEvidence :=
  { evidence with detail := backDetail formats toString evidence.detail }

def backEntry (formats : Formats) (toString : Value → String) (entry : MemoryEntry) : MemoryEntry :=
  { entry with
    evidence := entry.evidence.map (backEvidence formats toString)
    detail := backDetail formats toString entry.detail }

variable {formats : Formats} {toString : Value → String} {scope : MemoryScope}
  {write : MemoryWrite} {page : Value}

theorem detail_back {attributes : Attributes} {back : Value}
    (h : get back "metadata" = some (metadata (flatten toString attributes))) :
    detail formats back = backDetail formats toString attributes :=
  attributes_eq_iff.mpr (detail_eq h)

section Reasons

theorem relationFrom_none {edge : Value} (h : isReason edge = false) :
    relationFrom scope edge = none := by
  unfold isReason at h
  cases hkind : (getStr edge "rel").bind relationKindOf with
  | none => simp [relationFrom, hkind]
  | some kind => simp [hkind] at h

theorem filterMap_filter_of_none {α β : Type} {f : α → Option β} {p : α → Bool}
    (h : ∀ a, p a = false → f a = none) (l : List α) : (l.filter p).filterMap f = l.filterMap f := by
  rw [List.filterMap_filter]
  apply List.filterMap_congr
  intro a _
  cases hp : p a with
  | false => simp [h a hp]
  | true => simp

theorem reasons_shown
    (h : (proofItems page "path").filter isReason = write.relations.map (reason scope)) :
    reasons scope page = write.relations := by
  have hread : relationFrom scope ∘ reason scope = some := by
    funext relation
    exact relationFrom_reason scope relation
  rw [reasons, ← filterMap_filter_of_none (fun _ => relationFrom_none), h, List.filterMap_map, hread,
    List.filterMap_some]

end Reasons

section Evidence

def stamped (write : MemoryWrite) : List (MemoryEntry × (MemoryEvidence × Nat)) :=
  write.entries.flatMap fun entry => entry.evidence.zipIdx.map fun e => (entry, e)

def evidenceOf (toString : Value → String) (scope : MemoryScope) (write : MemoryWrite) :
    List Value :=
  (stamped write).map fun p => evidenceItem toString scope p.1 p.2

theorem nodup_stamped (h : (write.entries.map MemoryEntry.id).Nodup) :
    ((stamped write).map fun p => evidenceRef scope p.1.id p.2.2).Nodup := by
  rw [stamped, List.map_flatMap, List.nodup_flatMap]
  constructor
  · intro entry _
    rw [List.map_map]
    have hplaces : (entry.evidence.zipIdx.map Prod.snd).Nodup := by
      rw [List.zipIdx_map_snd]
      exact List.nodup_range'
    have hrefs : entry.evidence.zipIdx.map
        ((fun p : MemoryEntry × (MemoryEvidence × Nat) => evidenceRef scope p.1.id p.2.2) ∘
          fun e => (entry, e)) =
        (entry.evidence.zipIdx.map Prod.snd).map (evidenceRef scope entry.id) := by
      rw [List.map_map]
      rfl
    rw [hrefs]
    exact hplaces.map fun n n' heq => (evidenceRef_injective scope heq).2
  · have hapart : write.entries.Pairwise fun a b => a.id ≠ b.id := List.pairwise_map.mp h
    refine hapart.imp ?_
    intro a b hab ref ha hb
    simp only [List.map_map, List.mem_map, Function.comp_apply] at ha hb
    obtain ⟨e, -, rfl⟩ := ha
    obtain ⟨e', -, heq⟩ := hb
    exact hab (evidenceRef_injective scope heq).1.symm

theorem getStr_evidenceItem (toString : Value → String) (scope : MemoryScope)
    (entry : MemoryEntry) (e : MemoryEvidence × Nat) :
    getStr (evidenceItem toString scope entry e) "id" = some (evidenceRef scope entry.id e.2) ∧
      getStr (evidenceItem toString scope entry e) "text" = some e.1.label.asStr ∧
      getStr (evidenceItem toString scope entry e) "source" = e.1.sourceId ∧
      getItems (evidenceItem toString scope entry e) "supports" =
        [.string (entryRef scope entry.id)] ∧
      get (evidenceItem toString scope entry e) "metadata" =
        some (metadata (flatten toString e.1.detail)) := by
  cases hsource : e.1.sourceId with
  | none =>
    simp [evidenceItem, getStr_json, getItems_json, get_json, OrdMap.ofList, OrdMap.get?_insert,
      Value.asStr, Value.asArray, hsource]
  | some source =>
    simp [evidenceItem, getStr_json, getItems_json, get_json, OrdMap.ofList, OrdMap.get?_insert,
      Value.asStr, Value.asArray, hsource]

theorem stripPrefix_detail {item back : Value} {ref : String} (h : ShowsEvidence item back)
    (hid : getStr item "id" = some ref) :
    (getStr back "id").bind (stripPrefix "detail:") = some ref := by
  rw [h.id ref hid, Option.bind_some, stripPrefix_append]

theorem described_shown (hnodup : (write.entries.map MemoryEntry.id).Nodup)
    (h : List.Forall₂ ShowsEvidence (evidenceOf toString scope write) (proofItems page "evidence"))
    {p : MemoryEntry × (MemoryEvidence × Nat)} (hp : p ∈ stamped write) :
    ∃ back, (describedEvidence page).get? (evidenceRef scope p.1.id p.2.2) = some back ∧
      ShowsEvidence (evidenceItem toString scope p.1 p.2) back := by
  let read : Value → Option (String × Value) := fun item => do
    let id ← getStr item "id"
    let reference ← stripPrefix "detail:" id
    pure (reference, item)
  have hread : List.Forall₂
      (fun (p : MemoryEntry × (MemoryEvidence × Nat)) (e : String × Value) =>
        e.1 = evidenceRef scope p.1.id p.2.2 ∧
          ShowsEvidence (evidenceItem toString scope p.1 p.2) e.2)
      (stamped write) ((proofItems page "evidence").filterMap read) := by
    refine forall₂_filterMap ?_ (List.forall₂_map_left_iff.mp h)
    intro p back hback
    have hstrip := stripPrefix_detail hback
      (getStr_evidenceItem toString scope p.1 p.2).1
    refine ⟨(evidenceRef scope p.1.id p.2.2, back), ?_, rfl, hback⟩
    obtain ⟨id, hid, hstrip⟩ := Option.bind_eq_some_iff.mp hstrip
    simp [read, hid, hstrip]
  -- No two of them have the same reference.
  have hkeys : (((proofItems page "evidence").filterMap read).map Prod.fst).Nodup := by
    have hsame : ((proofItems page "evidence").filterMap read).map Prod.fst =
        (stamped write).map fun p => evidenceRef scope p.1.id p.2.2 :=
      map_eq_of_forall₂ hread fun _ _ h => h.1
    rw [hsame]
    exact nodup_stamped hnodup
  obtain ⟨e, he, hkey, hshows⟩ := exists_of_forall₂ hread hp
  refine ⟨e.2, ?_, hshows⟩
  rw [← hkey]
  apply (OrdMap.get?_ofList_of_agree ?_).mpr he
  intro w _ hw
  have hinj := List.inj_on_of_nodup_map hkeys hw he rfl
  exact congrArg Prod.snd hinj

theorem support_shown (hnodup : (write.entries.map MemoryEntry.id).Nodup)
    (h : List.Forall₂ ShowsEvidence (evidenceOf toString scope write) (proofItems page "evidence"))
    {p : MemoryEntry × (MemoryEvidence × Nat)} (hp : p ∈ stamped write) {edge : Value}
    (hrel : isSupport edge = true)
    (hedge : ShowsSupport (evidenceItem toString scope p.1 p.2) edge) :
    support formats page edge =
      some (entryRef scope p.1.id, backEvidence formats toString p.2.1) := by
  obtain ⟨back, hback, hshows⟩ := described_shown hnodup h hp
  obtain ⟨hid, htext, hsource, hsupports, hmetadata⟩ :=
    getStr_evidenceItem toString scope p.1 p.2
  have hlabel : Phrase.new p.2.1.label.asStr = .ok p.2.1.label :=
    Phrase.new_eq_ok.mpr p.2.1.label.valid
  have hfrom : getStr edge "from" = some (evidenceRef scope p.1.id p.2.2) := by
    rw [getStr, hedge.source]
    exact hid
  have hto : getStr edge "to" = some (entryRef scope p.1.id) := by
    rw [getStr, hedge.target _ hsupports]
    rfl
  have hevidence : getStr edge "evidence" = some p.2.1.label.asStr := by
    rw [getStr, hedge.evidence]
    exact htext
  have hsource' : getStr back "source" = p.2.1.sourceId := by
    rw [getStr, hshows.source]
    exact hsource
  have hdetail : detail formats back = backDetail formats toString p.2.1.detail :=
    detail_back (hshows.metadata.trans hmetadata)
  have hguard : getStr edge "rel" = some "supports" := of_decide_eq_true hrel
  simp [support, hguard, hto, hevidence, hfrom, hback, hsource', hdetail, MemoryEvidence.new, hlabel,
    Except.toOption, backEvidence]

theorem support_none {edge : Value} (h : isSupport edge = false) :
    support formats page edge = none := by
  have hrel : getStr edge "rel" ≠ some "supports" := of_decide_eq_false h
  simp [support, hrel]

theorem get?_foldl_filed {ν : Type} (l : List (String × ν)) (m : OrdMap String (List ν))
    (k : String) :
    ((l.foldl (fun m e => m.insert e.1 ((m.get? e.1).getD [] ++ [e.2])) m).get? k).getD [] =
      (m.get? k).getD [] ++ l.filterMap fun e => if e.1 = k then some e.2 else none := by
  induction l generalizing m with
  | nil => simp
  | cons e l ih =>
    rw [List.foldl_cons, ih, List.filterMap_cons]
    by_cases hk : e.1 = k
    · simp [hk]
    · simp [hk, OrdMap.get?_insert_ne _ (Ne.symm hk)]

theorem entryRef_injective {id id' : MemoryEntryId} (h : entryRef scope id = entryRef scope id') :
    id = id' := by
  have hread := congrArg (entryIdFrom scope) h
  rw [entryIdFrom_entryRef, entryIdFrom_entryRef] at hread
  exact Option.some.inj hread

def forEntry (scope : MemoryScope) (entry : MemoryEntry) (e : String × MemoryEvidence) :
    Option MemoryEvidence :=
  if e.1 = entryRef scope entry.id then some e.2 else none

theorem filed_evidence (entry other : MemoryEntry) (g : MemoryEvidence → MemoryEvidence) :
    (other.evidence.zipIdx.map fun e => (other, e)).filterMap
        (forEntry scope entry ∘ fun p => (entryRef scope p.1.id, g p.2.1)) =
      if other.id = entry.id then other.evidence.map g else [] := by
  rw [List.filterMap_map]
  by_cases hid : other.id = entry.id
  · have hsome : (forEntry scope entry ∘
        (fun p : MemoryEntry × (MemoryEvidence × Nat) => (entryRef scope p.1.id, g p.2.1))) ∘
          (fun e => (other, e)) = some ∘ (g ∘ Prod.fst) := by
      funext e
      simp [forEntry, hid]
    rw [hsome, List.filterMap_eq_map, ← List.map_map, List.zipIdx_map_fst, if_pos hid]
  · rw [if_neg hid, List.filterMap_eq_nil_iff]
    intro e _
    simp only [Function.comp_apply, forEntry, ite_eq_right_iff, reduceCtorEq, imp_false]
    exact fun href => hid (entryRef_injective href)

theorem filed_stamped (hnodup : (write.entries.map MemoryEntry.id).Nodup)
    {g : MemoryEvidence → MemoryEvidence} {entry : MemoryEntry} (hentry : entry ∈ write.entries) :
    (stamped write).filterMap (forEntry scope entry ∘ fun p => (entryRef scope p.1.id, g p.2.1)) =
      entry.evidence.map g := by
  rw [stamped]
  generalize write.entries = entries at hnodup hentry
  induction entries with
  | nil => simp at hentry
  | cons other entries ih =>
    rw [List.map_cons, List.nodup_cons] at hnodup
    rw [List.flatMap_cons, List.filterMap_append, filed_evidence]
    obtain rfl | hentry := List.mem_cons.mp hentry
    · have hnone : ∀ other ∈ entries, other.id ≠ entry.id :=
        fun other hother heq => hnodup.1 (heq ▸ List.mem_map_of_mem hother)
      rw [if_pos rfl, List.filterMap_flatMap, List.flatMap_eq_nil_iff.mpr, List.append_nil]
      intro other hother
      rw [filed_evidence, if_neg (hnone other hother)]
    · have hid : other.id ≠ entry.id := fun heq => hnodup.1 (heq ▸ List.mem_map_of_mem hentry)
      rw [if_neg hid, List.nil_append]
      exact ih hnodup.2 hentry

theorem attached_shown (hnodup : (write.entries.map MemoryEntry.id).Nodup)
    (hevidence : List.Forall₂ ShowsEvidence (evidenceOf toString scope write)
      (proofItems page "evidence"))
    (hsupports : List.Forall₂ ShowsSupport (evidenceOf toString scope write)
      ((proofItems page "path").filter isSupport))
    {entry : MemoryEntry} (hentry : entry ∈ write.entries) :
    ((evidenceByEntry formats page).get? (entryRef scope entry.id)).getD [] =
      entry.evidence.map (backEvidence formats toString) := by
  have hall : (proofItems page "path").filterMap (support formats page) =
      (stamped write).map fun p => (entryRef scope p.1.id, backEvidence formats toString p.2.1) := by
    rw [← filterMap_filter_of_none fun _ => support_none]
    have hread : List.Forall₂ (fun (p : MemoryEntry × (MemoryEvidence × Nat)) c =>
        c = (entryRef scope p.1.id, backEvidence formats toString p.2.1)) (stamped write)
        (((proofItems page "path").filter isSupport).filterMap (support formats page)) := by
      refine forall₂_filterMap ?_ (forall₂_with_mem (List.forall₂_map_left_iff.mp hsupports))
      rintro p edge ⟨hedge, hp, hmem⟩
      exact ⟨_, support_shown hnodup hevidence hp (List.mem_filter.mp hmem).2 hedge, rfl⟩
    simpa using map_eq_of_forall₂ hread fun _ _ h => h
  rw [evidenceByEntry, get?_foldl_filed, hall, List.filterMap_map, OrdMap.get?_empty,
    Option.getD_none, List.nil_append]
  exact filed_stamped hnodup hentry

end Evidence

section Entries

variable {sequence : Nat} {occurredAt : String} {entry : MemoryEntry}

theorem getStr_coordinate (sequence : Nat) (occurredAt : String) (axis : String × String) :
    getStr (coordinate sequence occurredAt axis) "dimension" = some axis.1 ∧
      getStr (coordinate sequence occurredAt axis) "scope_id" = some axis.2 ∧
      getStr (coordinate sequence occurredAt axis) "occurred_at" = some occurredAt := by
  simp [coordinate, getStr_json, OrdMap.ofList, OrdMap.get?_insert, Value.asStr]

theorem take_shown {axis : String × String} {back : Value}
    (h : ShowsCoordinate scope (coordinate sequence occurredAt axis) back) (placement : Placement) :
    Placement.take formats scope placement back =
      { ceremony := if axis.1 = dimensionCeremony then unqualify dimensionCeremony axis.2
          else placement.ceremony
        role := if axis.1 = dimensionRole then unqualify dimensionRole axis.2 else placement.role
        strand := if axis.1 = dimensionStrand then unqualify dimensionStrand axis.2
          else placement.strand
        observedAt := placement.observedAt.or (formats.parseRfc3339 occurredAt) } := by
  obtain ⟨hdimension, hscope, hoccurred⟩ :=
    getStr_coordinate sequence occurredAt axis
  have hdimension' : getStr back "dimension" = some axis.1 := by
    rw [getStr, h.dimension]
    exact hdimension
  have hoccurred' : getStr back "occurred_at" = some occurredAt := by
    rw [getStr, h.occurredAt]
    exact hoccurred
  have hscope' : (getStr back "scope_id").map (declaredId scope) = some axis.2 := by
    rw [h.scopeId axis.2 hscope, Option.map_some, declaredId, stripPrefix_append]
    rfl
  obtain ⟨dimension, id⟩ := axis
  obtain ⟨ceremony, role, strand, seen⟩ := placement
  dsimp only at hdimension' hscope' ⊢
  unfold Placement.take
  rw [hdimension', hscope', hoccurred']
  by_cases hceremony : dimension = "ceremony"
  · subst hceremony
    cases seen <;> simp [dimensionCeremony, dimensionRole, dimensionStrand]
  · by_cases hrole : dimension = "role"
    · subst hrole
      cases seen <;> simp [dimensionCeremony, dimensionRole, dimensionStrand]
    · by_cases hstrand : dimension = "strand"
      · subst hstrand
        cases seen <;> simp [dimensionCeremony, dimensionRole, dimensionStrand]
      · cases seen <;>
          simp [dimensionCeremony, dimensionRole, dimensionStrand, hceremony, hrole, hstrand]

theorem foldl_take_shown {axes : List (String × String)} {backs : List Value}
    (h : List.Forall₂ (ShowsCoordinate scope) (axes.map (coordinate sequence occurredAt)) backs)
    (placement : Placement) :
    backs.foldl (Placement.take formats scope) placement =
      axes.foldl (fun placement axis =>
        { ceremony := if axis.1 = dimensionCeremony then unqualify dimensionCeremony axis.2
            else placement.ceremony
          role := if axis.1 = dimensionRole then unqualify dimensionRole axis.2 else placement.role
          strand := if axis.1 = dimensionStrand then unqualify dimensionStrand axis.2
            else placement.strand
          observedAt := placement.observedAt.or (formats.parseRfc3339 occurredAt) }) placement := by
  induction axes generalizing backs placement with
  | nil =>
    cases h
    rfl
  | cons axis axes ih =>
    rw [List.map_cons, List.forall₂_cons_left_iff] at h
    obtain ⟨back, backs, hback, hbacks, rfl⟩ := h
    rw [List.foldl_cons, List.foldl_cons, take_shown hback, ih hbacks]

theorem placement_shown {backs : List Value} {instant : OffsetDateTime}
    (hparse : formats.parseRfc3339 occurredAt = some instant)
    (h : List.Forall₂ (ShowsCoordinate scope)
      ((axes scope entry).map (coordinate sequence occurredAt)) backs) :
    backs.foldl (Placement.take formats scope) Placement.nowhere =
      { ceremony := some entry.provenance.ceremonyId.asStr
        role := entry.provenance.roleId.map fun role => role.asStr
        strand := entry.dimension.map fun strand => strand.asStr
        observedAt := some instant } := by
  rw [foldl_take_shown h, axes]
  cases entry.provenance.roleId <;> cases entry.dimension <;>
    simp [dimensionSession, dimensionCeremony, dimensionRole, dimensionStrand, unqualify_qualify,
      Placement.nowhere, hparse]

theorem get_entryItem (toString : Value → String) (scope : MemoryScope) (sequence : Nat)
    (occurredAt : String) (entry : MemoryEntry) :
    getStr (entryItem toString scope sequence occurredAt entry) "id" =
        some (entryRef scope entry.id) ∧
      getStr (entryItem toString scope sequence occurredAt entry) "kind" =
        some (kindLabel entry.kind) ∧
      getStr (entryItem toString scope sequence occurredAt entry) "text" =
        some entry.summary.asStr ∧
      getItems (entryItem toString scope sequence occurredAt entry) "coordinates" =
        (axes scope entry).map (coordinate sequence occurredAt) ∧
      get (entryItem toString scope sequence occurredAt entry) "metadata" =
        some (metadata (flatten toString entry.detail)) := by
  simp [entryItem, getStr_json, getItems_json, get_json, OrdMap.ofList, OrdMap.get?_insert,
    Value.asStr, Value.asArray]

/-- An entry that is shown is read as it was written, but for its details, with the
evidence that is attached to it. -/
theorem readEntry_shown {back : Value} {attached : OrdMap String (List MemoryEvidence)}
    (hparse : formats.parseRfc3339 occurredAt = some entry.provenance.observedAt)
    (hattached : (attached.get? (entryRef scope entry.id)).getD [] =
      entry.evidence.map (backEvidence formats toString))
    (h : ShowsEntry scope (entryItem toString scope sequence occurredAt entry) back) :
    readEntry formats scope back attached =
      some (entryRef scope entry.id, backEntry formats toString entry) := by
  obtain ⟨hid, hkind, htext, hcoordinates, hmetadata⟩ :=
    get_entryItem toString scope sequence occurredAt entry
  have hid' : getStr back "ref" = some (entryRef scope entry.id) := by
    rw [getStr, h.ref]
    exact hid
  have hkind' : getStr back "kind" = some (kindLabel entry.kind) := by
    rw [getStr, h.kind]
    exact hkind
  have htext' : getStr back "text" = some entry.summary.asStr := by
    rw [getStr, h.text]
    exact htext
  have hplaced := placement_shown hparse (hcoordinates ▸ h.coordinates)
  have hdetail : detail formats back = backDetail formats toString entry.detail :=
    detail_back (h.metadata.trans hmetadata)
  have hceremony : (Text.new entry.provenance.ceremonyId.asStr).toOption =
      some entry.provenance.ceremonyId := by
    rw [Text.new_eq_ok.mpr entry.provenance.ceremonyId.valid]
    rfl
  have hrole : (entry.provenance.roleId.map fun role => role.asStr).bind
      (fun raw => (Text.new raw).toOption) = entry.provenance.roleId := by
    cases hrole : entry.provenance.roleId with
    | none => rfl
    | some role =>
      have hnew : Text.new role.asStr = .ok role := Text.new_eq_ok.mpr role.valid
      simp [hnew, Except.toOption]
  have hstrand : (entry.dimension.map fun strand => strand.asStr).bind
      (fun raw => (Phrase.new raw).toOption) = entry.dimension := by
    cases hstrand : entry.dimension with
    | none => rfl
    | some strand =>
      have hnew : Phrase.new strand.asStr = .ok strand := Phrase.new_eq_ok.mpr strand.valid
      simp [hnew, Except.toOption]
  have hsummary : Phrase.new entry.summary.asStr = .ok entry.summary :=
    Phrase.new_eq_ok.mpr entry.summary.valid
  have hnew : MemoryEntry.new entry.id entry.kind entry.summary.asStr entry.dimension
      entry.provenance (backDetail formats toString entry.detail) =
      .ok { entry with evidence := [], detail := backDetail formats toString entry.detail } := by
    simp [MemoryEntry.new, hsummary]
  unfold readEntry
  simp only [hid', hkind', htext', hplaced, hdetail, entryIdFrom_entryRef, kindOf_kindLabel, hrole,
    hstrand, Option.bind_eq_bind, Option.bind_some, hceremony]
  rw [hnew]
  cases hget : attached.get? (entryRef scope entry.id) with
  | none =>
    rw [hget, Option.getD_none] at hattached
    simp [Except.toOption, backEntry, ← hattached]
  | some evidence =>
    rw [hget, Option.getD_some] at hattached
    simp [Except.toOption, backEntry, ← hattached, MemoryEntry.withEvidence]

end Entries

section Ingested

/-- One entry of a write, with the instant it was observed at written out. -/
def Written (formats : Formats) (toString : Value → String) (scope : MemoryScope)
    (e : MemoryEntry × Nat) (item : Value) : Prop :=
  ∃ occurredAt, formats.rfc3339 e.1.provenance.observedAt = some occurredAt ∧
    item = entryItem toString scope (e.2 + 1) occurredAt e.1

theorem add_eq_ok {ingest ingest' : Ingest} {e : MemoryEntry × Nat}
    (h : Ingest.add formats toString scope ingest e = .ok ingest') :
    ∃ item, Written formats toString scope e item ∧
      ingest' = ⟨(axes scope e.1).foldl declare ingest.dimensions, ingest.entries ++ [item],
        ingest.evidence ++ evidenceItems toString scope e.1⟩ := by
  unfold Ingest.add at h
  obtain ⟨occurredAt, htime, heq⟩ := except_bind_eq_ok.mp h
  exact ⟨_, ⟨occurredAt, okOr_eq_ok.mp htime, rfl⟩, (Except.ok.inj heq).symm⟩

theorem foldlM_add_eq_ok {l : List (MemoryEntry × Nat)} {start ingest : Ingest}
    (h : l.foldlM (Ingest.add formats toString scope) start = .ok ingest) :
    ∃ items, List.Forall₂ (Written formats toString scope) l items ∧
      ingest = ⟨l.foldl (fun dimensions e => (axes scope e.1).foldl declare dimensions)
          start.dimensions, start.entries ++ items,
        start.evidence ++ l.flatMap fun e => evidenceItems toString scope e.1⟩ := by
  induction l generalizing start with
  | nil =>
    obtain rfl := Except.ok.inj h
    exact ⟨[], .nil, by simp⟩
  | cons e l ih =>
    rw [List.foldlM_cons] at h
    obtain ⟨next, hadd, hrest⟩ := except_bind_eq_ok.mp h
    obtain ⟨item, hitem, rfl⟩ := add_eq_ok hadd
    obtain ⟨items, hitems, rfl⟩ := ih hrest
    exact ⟨item :: items, .cons hitem hitems, by simp⟩

theorem flatMap_evidenceItems (write : MemoryWrite) :
    (write.entries.zipIdx.flatMap fun e => evidenceItems toString scope e.1) =
      evidenceOf toString scope write := by
  have hfirst : (write.entries.zipIdx.flatMap fun e => evidenceItems toString scope e.1) =
      (write.entries.zipIdx.map Prod.fst).flatMap (evidenceItems toString scope) := by
    rw [List.flatMap_map]
  rw [hfirst, List.zipIdx_map_fst, evidenceOf, stamped, List.map_flatMap]
  simp only [List.map_map]
  rfl

theorem getItems_memoryOf (scope : MemoryScope) (ingest : Ingest) (write : MemoryWrite) :
    getItems (memoryOf scope ingest write) "dimensions" = ingest.dimensions.values ∧
      getItems (memoryOf scope ingest write) "entries" = ingest.entries ∧
      getItems (memoryOf scope ingest write) "evidence" = ingest.evidence ∧
      getItems (memoryOf scope ingest write) "relations" = write.relations.map (reason scope) := by
  simp [memoryOf, getItems_json, OrdMap.ofList, OrdMap.get?_insert, Value.asArray]

theorem ingestArguments_eq_ok {key : String} {document : Value}
    (h : ingestArguments formats toString scope write key = .ok document) :
    ∃ memory items, get document "memory" = some memory ∧
      List.Forall₂ (Written formats toString scope) write.entries.zipIdx items ∧
      getItems memory "dimensions" = (write.entries.zipIdx.foldl
        (fun dimensions e => (axes scope e.1).foldl declare dimensions)
        (Ingest.begin scope).dimensions).values ∧
      getItems memory "entries" = items ∧
      getItems memory "evidence" = evidenceOf toString scope write ∧
      getItems memory "relations" = write.relations.map (reason scope) := by
  unfold ingestArguments at h
  obtain ⟨ingest, hingest, h⟩ := except_bind_eq_ok.mp h
  obtain ⟨observedAt, -, h⟩ := except_bind_eq_ok.mp h
  obtain rfl := Except.ok.inj h
  refine ⟨memoryOf scope ingest write, ingest.entries, ?_, ?_⟩
  · simp [get_json, OrdMap.ofList, OrdMap.get?_insert]
  · obtain ⟨hdimensions, hentries, hevidence, hrelations⟩ := getItems_memoryOf scope ingest write
    obtain ⟨items, hitems, rfl⟩ := foldlM_add_eq_ok hingest
    refine ⟨by simpa [Ingest.begin] using hitems, hdimensions, hentries, ?_, hrelations⟩
    rw [hevidence, ← flatMap_evidenceItems]
    rfl

/-- What is remembered is what is recalled. Where a page shows the memory of a write, and no
two entries of it bear the same id, they are read back in their order with everything they
were written with, evidence and its sources too, their details as these come back, and its
reasons are read back whole. -/
theorem recalled_as_remembered {key : String} {document memory : Value}
    (hformats : ∀ instant text, formats.rfc3339 instant = some text →
      formats.parseRfc3339 text = some instant)
    (hnodup : (write.entries.map MemoryEntry.id).Nodup)
    (hwritten : ingestArguments formats toString scope write key = .ok document)
    (hmemory : get document "memory" = some memory) (hshows : Shows scope memory page) :
    (readPage formats scope page).entries = (write.entries.map fun entry =>
        (entryRef scope entry.id, backEntry formats toString entry)) ∧
      (readPage formats scope page).relations = write.relations := by
  obtain ⟨memory', items, hmemory', hitems, -, hentries, hevidence, hrelations⟩ :=
    ingestArguments_eq_ok hwritten
  obtain rfl := Option.some.inj (hmemory.symm.trans hmemory')
  refine ⟨?_, reasons_shown (hshows.reasons.trans hrelations)⟩
  have hdescribed := hevidence ▸ hshows.evidence
  have hsupports := hevidence ▸ hshows.supports
  have hread : List.Forall₂ (fun (e : MemoryEntry × Nat) c =>
      c = (entryRef scope e.1.id, backEntry formats toString e.1)) write.entries.zipIdx
      (readPage formats scope page).entries := by
    have hshown : List.Forall₂ (fun e back => ∃ item, Written formats toString scope e item ∧
        ShowsEntry scope item back) write.entries.zipIdx (getItems page "entries") :=
      forall₂_comp hitems (hentries ▸ hshows.entries) fun _ item _ hitem hback =>
        ⟨item, hitem, hback⟩
    refine forall₂_filterMap ?_ (forall₂_with_mem hshown)
    rintro e back ⟨⟨item, ⟨occurredAt, htime, rfl⟩, hback⟩, he, -⟩
    refine ⟨_, readEntry_shown (hformats _ _ htime) ?_ hback, rfl⟩
    exact attached_shown hnodup hdescribed hsupports (List.fst_mem_of_mem_zipIdx he)
  have hmap : (readPage formats scope page).entries.map (fun c => c) = write.entries.zipIdx.map
      fun e => (entryRef scope e.1.id, backEntry formats toString e.1) :=
    map_eq_of_forall₂ hread fun _ _ h => h
  calc (readPage formats scope page).entries
      = write.entries.zipIdx.map fun e =>
          (entryRef scope e.1.id, backEntry formats toString e.1) := by rw [← hmap, List.map_id']
    _ = (write.entries.zipIdx.map Prod.fst).map fun entry =>
          (entryRef scope entry.id, backEntry formats toString entry) := by rw [List.map_map]; rfl
    _ = _ := by rw [List.zipIdx_map_fst]

section Shelf

variable (toString : Value → String) (scope : MemoryScope)

def shownCoordinate (occurredAt : String) (axis : String × String) : Value :=
  json [("dimension", .string axis.1),
    ("scope_id", .string ("about:" ++ scope.asStr ++ ":dimension:" ++ axis.2)),
    ("occurred_at", .string occurredAt)]

def shownEntry (occurredAt : String) (entry : MemoryEntry) : Value :=
  json [("ref", .string (entryRef scope entry.id)), ("kind", .string (kindLabel entry.kind)),
    ("text", .string entry.summary.asStr), ("metadata", metadata (flatten toString entry.detail)),
    ("coordinates", .array ((axes scope entry).map (shownCoordinate scope occurredAt)))]

def shownEdge (p : MemoryEntry × (MemoryEvidence × Nat)) : Value :=
  json [("rel", .string "supports"), ("from", .string (evidenceRef scope p.1.id p.2.2)),
    ("to", .string (entryRef scope p.1.id)), ("evidence", .string p.2.1.label.asStr)]

def shownEvidence (p : MemoryEntry × (MemoryEvidence × Nat)) : Value :=
  json ([("id", .string ("detail:" ++ evidenceRef scope p.1.id p.2.2)),
    ("metadata", metadata (flatten toString p.2.1.detail))] ++
    (p.2.1.sourceId.map fun source => ("source", Value.string source)).toList)

/-- A page with the memory of a write on it, all of it seen at one instant: the edges of its
evidence first, then its reasons. -/
def shownPage (occurredAt : String) (write : MemoryWrite) : Value :=
  json [("entries", .array (write.entries.map (shownEntry toString scope occurredAt))),
    ("proof", json [
      ("path", .array ((stamped write).map (shownEdge scope) ++ write.relations.map (reason scope))),
      ("evidence", .array ((stamped write).map (shownEvidence toString scope)))])]

theorem showsEntry_shownEntry (sequence : Nat) (occurredAt : String) (entry : MemoryEntry) :
    ShowsEntry scope (entryItem toString scope sequence occurredAt entry)
      (shownEntry toString scope occurredAt entry) := by
  have hcoordinates : List.Forall₂ (ShowsCoordinate scope)
      ((axes scope entry).map (coordinate sequence occurredAt))
      ((axes scope entry).map (shownCoordinate scope occurredAt)) := by
    rw [List.forall₂_map_left_iff, List.forall₂_map_right_iff, List.forall₂_same]
    intro axis _
    refine ⟨?_, ?_, ?_⟩
    · simp [coordinate, shownCoordinate, get_json, OrdMap.ofList, OrdMap.get?_insert]
    · intro id h
      rw [(getStr_coordinate _ _ _).2.1] at h
      obtain rfl := Option.some.inj h
      simp [shownCoordinate, getStr_json, OrdMap.ofList, OrdMap.get?_insert, Value.asStr]
    · simp [coordinate, shownCoordinate, get_json, OrdMap.ofList]
  refine ⟨?_, ?_, ?_, ?_, ?_⟩
  · simp [entryItem, shownEntry, get_json, OrdMap.ofList, OrdMap.get?_insert]
  · simp [entryItem, shownEntry, get_json, OrdMap.ofList, OrdMap.get?_insert]
  · simp [entryItem, shownEntry, get_json, OrdMap.ofList, OrdMap.get?_insert]
  · simp [entryItem, shownEntry, get_json, OrdMap.ofList, OrdMap.get?_insert]
  · simpa [entryItem, shownEntry, getItems_json, OrdMap.ofList, OrdMap.get?_insert, Value.asArray]
      using hcoordinates

theorem showsEvidence_shownEvidence (p : MemoryEntry × (MemoryEvidence × Nat)) :
    ShowsEvidence (evidenceItem toString scope p.1 p.2) (shownEvidence toString scope p) := by
  refine ⟨?_, ?_, ?_⟩
  · intro id h
    obtain rfl := Option.some.inj ((getStr_evidenceItem toString scope p.1 p.2).1.symm.trans h)
    cases hsource : p.2.1.sourceId <;>
      simp [shownEvidence, getStr_json, OrdMap.ofList, OrdMap.get?_insert, Value.asStr, hsource]
  · cases hsource : p.2.1.sourceId <;>
      simp [evidenceItem, shownEvidence, get_json, OrdMap.ofList, OrdMap.get?_insert, hsource]
  · cases hsource : p.2.1.sourceId <;>
      simp [evidenceItem, shownEvidence, get_json, OrdMap.ofList, OrdMap.get?_insert, hsource]

theorem showsSupport_shownEdge (p : MemoryEntry × (MemoryEvidence × Nat)) :
    ShowsSupport (evidenceItem toString scope p.1 p.2) (shownEdge scope p) := by
  refine ⟨?_, ?_, ?_⟩
  · cases hsource : p.2.1.sourceId <;>
      simp [evidenceItem, shownEdge, get_json, OrdMap.ofList, OrdMap.get?_insert, hsource]
  · intro target h
    obtain rfl := List.singleton_inj.mp
      ((getStr_evidenceItem toString scope p.1 p.2).2.2.2.1.symm.trans h)
    simp [shownEdge, get_json, OrdMap.ofList, OrdMap.get?_insert]
  · cases hsource : p.2.1.sourceId <;>
      simp [evidenceItem, shownEdge, get_json, OrdMap.ofList, OrdMap.get?_insert, hsource]

theorem isSupport_shownEdge (p : MemoryEntry × (MemoryEvidence × Nat)) :
    isSupport (shownEdge scope p) = true ∧ isReason (shownEdge scope p) = false := by
  have hrel : getStr (shownEdge scope p) "rel" = some "supports" := by
    simp [shownEdge, getStr_json, OrdMap.ofList, OrdMap.get?_insert, Value.asStr]
  exact ⟨by simp [isSupport, hrel], by simp [isReason, hrel, relationKindOf]⟩

theorem isReason_reason (relation : MemoryRelation) :
    isReason (reason scope relation) = true ∧ isSupport (reason scope relation) = false := by
  have hrel : getStr (reason scope relation) "rel" = some (kernelRelation relation.kind).1 := by
    simp [reason, getStr_json, OrdMap.ofList, OrdMap.get?_insert, Value.asStr]
  constructor
  · simp [isReason, hrel, relationKindOf_kernelRelation]
  · cases hkind : relation.kind <;> simp [isSupport, hrel, hkind, kernelRelation]

theorem shows_shownPage {occurredAt : String} {ingest : Ingest} {write : MemoryWrite}
    (hitems : List.Forall₂ (fun entry item => ∃ sequence,
      item = entryItem toString scope sequence occurredAt entry) write.entries ingest.entries)
    (hevidence : ingest.evidence = evidenceOf toString scope write) :
    Shows scope (memoryOf scope ingest write) (shownPage toString scope occurredAt write) := by
  obtain ⟨-, hentries, hgiven, hrelations⟩ := getItems_memoryOf scope ingest write
  have hshown : getItems (shownPage toString scope occurredAt write) "entries" =
      write.entries.map (shownEntry toString scope occurredAt) := by
    simp [shownPage, getItems_json, OrdMap.ofList, OrdMap.get?_insert, Value.asArray]
  have hpath : proofItems (shownPage toString scope occurredAt write) "path" =
      (stamped write).map (shownEdge scope) ++ write.relations.map (reason scope) := by
    simp [proofItems, shownPage, get_json, OrdMap.ofList, OrdMap.get?_insert, Value.asArray]
  have hdescribed : proofItems (shownPage toString scope occurredAt write) "evidence" =
      (stamped write).map (shownEvidence toString scope) := by
    simp [proofItems, shownPage, get_json, OrdMap.ofList, Value.asArray]
  have hedges : ((stamped write).map (shownEdge scope)).filter isSupport =
      (stamped write).map (shownEdge scope) ∧
        ((stamped write).map (shownEdge scope)).filter isReason = [] := by
    constructor
    · rw [List.filter_eq_self, List.forall_mem_map]
      exact fun p _ => (isSupport_shownEdge scope p).1
    · rw [List.filter_eq_nil_iff, List.forall_mem_map]
      exact fun p _ => by simp [(isSupport_shownEdge scope p).2]
  have hreasons : (write.relations.map (reason scope)).filter isReason =
      write.relations.map (reason scope) ∧
        (write.relations.map (reason scope)).filter isSupport = [] := by
    constructor
    · rw [List.filter_eq_self, List.forall_mem_map]
      exact fun relation _ => (isReason_reason scope relation).1
    · rw [List.filter_eq_nil_iff, List.forall_mem_map]
      exact fun relation _ => by simp [(isReason_reason scope relation).2]
  refine ⟨?_, ?_, ?_, ?_⟩
  · rw [hentries, hshown, List.forall₂_map_right_iff]
    refine hitems.flip.imp ?_
    rintro item entry ⟨sequence, rfl⟩
    exact showsEntry_shownEntry toString scope sequence occurredAt entry
  · rw [hpath, hrelations, List.filter_append, hedges.2, hreasons.1, List.nil_append]
  · rw [hpath, hgiven, hevidence, List.filter_append, hedges.1, hreasons.2, List.append_nil,
      evidenceOf, List.forall₂_map_left_iff, List.forall₂_map_right_iff, List.forall₂_same]
    exact fun p _ => showsSupport_shownEdge toString scope p
  · rw [hdescribed, hgiven, hevidence, evidenceOf, List.forall₂_map_left_iff,
      List.forall₂_map_right_iff, List.forall₂_same]
    exact fun p _ => showsEvidence_shownEvidence toString scope p

end Shelf

def dawnFormats : Formats where
  rfc3339 instant := if instant = ⟨0, 0⟩ then some "1970-01-01T00:00:00Z" else none
  parseRfc3339 text := if text = "1970-01-01T00:00:00Z" then some ⟨0, 0⟩ else none
  fromStr _ := none

def dawnScope : MemoryScope := ⟨"dawn", rfl⟩

def dawnEntry : MemoryEntry where
  id := ⟨"choice", rfl⟩
  kind := .decision
  summary := ⟨"ship it", rfl⟩
  dimension := some ⟨"release", rfl⟩
  provenance := ⟨⟨"dawn", rfl⟩, some ⟨"captain", rfl⟩, ⟨0, 0⟩⟩
  evidence := [⟨⟨"all green", rfl⟩, some "ci", Attributes.empty⟩,
    ⟨⟨"the crew agrees", rfl⟩, none, Attributes.empty⟩]
  detail := Attributes.empty

def duskEntry : MemoryEntry where
  id := ⟨"calm", rfl⟩
  kind := .observation
  summary := ⟨"no alarm all night", rfl⟩
  dimension := none
  provenance := ⟨⟨"dawn", rfl⟩, none, ⟨0, 0⟩⟩
  evidence := [⟨⟨"all green", rfl⟩, some "pager", Attributes.empty⟩]
  detail := Attributes.empty

def dawnReason : MemoryRelation where
  fromEntry := dawnEntry.id
  toEntry := duskEntry.id
  kind := .chosenBecause
  why := ⟨"a calm night", rfl⟩
  confidence := .high
  apart := by decide

def dawnWrite : MemoryWrite := ⟨[duskEntry, dawnEntry], [dawnReason], .inl (by simp)⟩

def dawnText : String := "1970-01-01T00:00:00Z"

def dawnIngest : Ingest :=
  ⟨dawnWrite.entries.foldl (fun dimensions e => (axes dawnScope e).foldl declare dimensions)
      (Ingest.begin dawnScope).dimensions,
    [entryItem jsonToString dawnScope 1 dawnText duskEntry,
      entryItem jsonToString dawnScope 2 dawnText dawnEntry],
    evidenceOf jsonToString dawnScope dawnWrite⟩

theorem shows_dawn : Shows dawnScope (memoryOf dawnScope dawnIngest dawnWrite)
    (shownPage jsonToString dawnScope dawnText dawnWrite) :=
  shows_shownPage jsonToString dawnScope (.cons ⟨1, rfl⟩ (.cons ⟨2, rfl⟩ .nil)) rfl

theorem ingest_dawn : ∃ document,
    ingestArguments dawnFormats jsonToString dawnScope dawnWrite "remember:dawn" = .ok document ∧
      get document "memory" = some (memoryOf dawnScope dawnIngest dawnWrite) := by
  have hingest : dawnWrite.entries.zipIdx.foldlM (Ingest.add dawnFormats jsonToString dawnScope)
      (Ingest.begin dawnScope) = .ok dawnIngest := rfl
  have hfirst : firstObserved dawnFormats dawnWrite = .ok dawnText := rfl
  unfold ingestArguments
  rw [hingest, hfirst]
  exact ⟨_, rfl, by simp [get_json, OrdMap.ofList, OrdMap.get?_insert]⟩

theorem nodup_dawn : (dawnWrite.entries.map MemoryEntry.id).Nodup := by
  decide

theorem recalled_as_remembered_dawn :
    (readPage dawnFormats dawnScope (shownPage jsonToString dawnScope dawnText dawnWrite)).entries =
        [(entryRef dawnScope duskEntry.id, backEntry dawnFormats jsonToString duskEntry),
          (entryRef dawnScope dawnEntry.id, backEntry dawnFormats jsonToString dawnEntry)] ∧
      (readPage dawnFormats dawnScope
        (shownPage jsonToString dawnScope dawnText dawnWrite)).relations = [dawnReason] := by
  obtain ⟨document, hwritten, hmemory⟩ := ingest_dawn
  have hformats : ∀ instant text, dawnFormats.rfc3339 instant = some text →
      dawnFormats.parseRfc3339 text = some instant := by
    intro instant text h
    simp only [dawnFormats, Option.ite_none_right_eq_some, Option.some.injEq] at h
    obtain ⟨rfl, rfl⟩ := h
    rfl
  exact recalled_as_remembered hformats nodup_dawn hwritten hmemory shows_dawn

end Ingested

section Integrity

/-- An id that says what kind of thing it names. -/
def Qualified (axis : String × String) : Prop :=
  ∃ value, axis.2 = qualify axis.1 value ∧ ':' ∉ axis.1.toList

/-- What is declared under an id is the one dimension that the id can be of. -/
def WellDeclared (dimensions : OrdMap String Value) : Prop :=
  ∀ id v, dimensions.get? id = some v → ∃ kind, Qualified (kind, id) ∧ v = declaration (kind, id)

theorem qualified_qualify {kind : String} (hkind : ':' ∉ kind.toList) (value : String) :
    Qualified (kind, qualify kind value) :=
  ⟨value, rfl, hkind⟩

theorem qualified_axes {entry : MemoryEntry} {axis : String × String}
    (h : axis ∈ axes scope entry) : Qualified axis := by
  have hqualified : ∀ kind value, kind ∈ ["session", "ceremony", "role", "strand"] →
      Qualified (kind, qualify kind value) := by
    intro kind value hkind
    apply qualified_qualify
    simp only [List.mem_cons, List.not_mem_nil, or_false] at hkind
    obtain rfl | rfl | rfl | rfl := hkind <;> decide
  simp only [axes, List.mem_append, List.mem_cons, List.not_mem_nil, or_false, Option.mem_toList,
    Option.map_eq_some_iff] at h
  obtain ((rfl | rfl) | ⟨role, -, rfl⟩) | ⟨strand, -, rfl⟩ := h
  all_goals exact hqualified _ _ (by decide)

theorem kind_of_qualified {kind kind' id : String} (h : Qualified (kind, id))
    (h' : Qualified (kind', id)) : kind = kind' := by
  obtain ⟨value, hid, hkind⟩ := h
  obtain ⟨value', hid', hkind'⟩ := h'
  have hlist : kind.toList ++ ':' :: value.toList = kind'.toList ++ ':' :: value'.toList := by
    have heq := congrArg String.toList (hid.symm.trans hid')
    simpa [qualify] using heq
  exact String.toList_inj.mp (first_sep_split hkind hkind' hlist).1

theorem declare_spec {dimensions : OrdMap String Value} {axis : String × String}
    (h : WellDeclared dimensions) (haxis : Qualified axis) :
    WellDeclared (declare dimensions axis) ∧
      (declare dimensions axis).get? axis.2 = some (declaration axis) ∧
      ∀ id v, dimensions.get? id = some v → (declare dimensions axis).get? id = some v := by
  unfold declare
  by_cases hcontains : dimensions.contains axis.2 = true
  · rw [if_pos hcontains]
    obtain ⟨v, hv⟩ := OrdMap.contains_iff.mp hcontains
    obtain ⟨kind, hkind, rfl⟩ := h _ _ hv
    obtain rfl := kind_of_qualified hkind haxis
    exact ⟨h, hv, fun _ _ hget => hget⟩
  · rw [if_neg hcontains]
    refine ⟨?_, OrdMap.get?_insert_self _ _ _, ?_⟩
    · intro id v hget
      by_cases hid : id = axis.2
      · subst hid
        rw [OrdMap.get?_insert_self] at hget
        exact ⟨axis.1, haxis, (Option.some.inj hget).symm⟩
      · rw [OrdMap.get?_insert_ne _ hid] at hget
        exact h id v hget
    · intro id v hget
      have hid : id ≠ axis.2 := by
        rintro rfl
        exact hcontains (OrdMap.contains_iff.mpr ⟨v, hget⟩)
      rwa [OrdMap.get?_insert_ne _ hid]

theorem foldl_declare_spec {dimensions : OrdMap String Value} {l : List (String × String)}
    (h : WellDeclared dimensions) (hl : ∀ axis ∈ l, Qualified axis) :
    WellDeclared (l.foldl declare dimensions) ∧
      (∀ axis ∈ l, (l.foldl declare dimensions).get? axis.2 = some (declaration axis)) ∧
      ∀ id v, dimensions.get? id = some v → (l.foldl declare dimensions).get? id = some v := by
  induction l generalizing dimensions with
  | nil => exact ⟨h, by simp, fun _ _ hget => hget⟩
  | cons axis l ih =>
    obtain ⟨hwell, hself, hkeep⟩ := declare_spec h (hl axis List.mem_cons_self)
    obtain ⟨hwell', hothers, hkeep'⟩ := ih hwell fun a ha => hl a (List.mem_cons_of_mem _ ha)
    refine ⟨hwell', ?_, fun id v hget => hkeep' id v (hkeep id v hget)⟩
    intro a ha
    obtain rfl | ha := List.mem_cons.mp ha
    · exact hkeep' _ _ hself
    · exact hothers a ha

theorem getStr_declaration (axis : String × String) :
    getStr (declaration axis) "id" = some axis.2 ∧
      getStr (declaration axis) "kind" = some axis.1 := by
  simp [declaration, getStr_json, OrdMap.ofList, OrdMap.get?_insert, Value.asStr]

theorem ids_of_wellDeclared {dimensions : OrdMap String Value} (h : WellDeclared dimensions) :
    dimensions.values.map (fun d => getStr d "id") = dimensions.keys.map some := by
  rw [OrdMap.values, OrdMap.keys, List.map_map, List.map_map]
  apply List.map_congr_left
  intro e he
  obtain ⟨kind, -, hv⟩ := h e.1 e.2 (OrdMap.mem_entries.mp he)
  simp only [Function.comp_apply, hv]
  exact (getStr_declaration _).1

theorem ids_of_written {l : List (MemoryEntry × Nat)} {items : List Value}
    (h : List.Forall₂ (Written formats toString scope) l items) :
    items.map (fun item => getStr item "id") = l.map fun e => some (entryRef scope e.1.id) := by
  apply map_eq_of_forall₂ h
  rintro e item ⟨occurredAt, -, rfl⟩
  exact (get_entryItem toString scope (e.2 + 1) occurredAt e.1).1

def dimensionsOf (scope : MemoryScope) (write : MemoryWrite) : OrdMap String Value :=
  write.entries.zipIdx.foldl (fun dimensions e => (axes scope e.1).foldl declare dimensions)
    (Ingest.begin scope).dimensions

theorem dimensionsOf_spec (scope : MemoryScope) (write : MemoryWrite) :
    WellDeclared (dimensionsOf scope write) ∧
      ∀ e ∈ write.entries.zipIdx, ∀ axis ∈ axes scope e.1,
        (dimensionsOf scope write).get? axis.2 = some (declaration axis) := by
  have hempty : WellDeclared OrdMap.empty := by simp [WellDeclared]
  have hsession : WellDeclared (Ingest.begin scope).dimensions :=
    (declare_spec hempty (qualified_qualify (by decide) _)).1
  have hqualified : ∀ axis ∈ write.entries.zipIdx.flatMap fun e => axes scope e.1,
      Qualified axis := by
    intro axis haxis
    obtain ⟨e, -, haxis⟩ := List.mem_flatMap.mp haxis
    exact qualified_axes haxis
  obtain ⟨hwell, hdeclared, -⟩ := foldl_declare_spec hsession hqualified
  rw [List.foldl_flatMap] at hwell hdeclared
  exact ⟨hwell, fun e he axis haxis => hdeclared axis (List.mem_flatMap.mpr ⟨e, he, haxis⟩)⟩

theorem exists_written {l : List (MemoryEntry × Nat)} {items : List Value} {item : Value}
    (h : List.Forall₂ (Written formats toString scope) l items) (hitem : item ∈ items) :
    ∃ e ∈ l, Written formats toString scope e item := by
  obtain ⟨e, he, hwritten⟩ := exists_of_forall₂ h.flip hitem
  exact ⟨e, he, hwritten⟩

/-- A write refers to nothing that is not in it. Every coordinate is on a dimension that is
declared, once and as what it is; every piece of evidence supports one entry of the write;
and where no two entries have one id, no two entries and no two pieces of evidence have
one reference. -/
theorem ingest_integrity {key : String} {document memory : Value}
    (hwritten : ingestArguments formats toString scope write key = .ok document)
    (hmemory : get document "memory" = some memory) :
    (∀ item ∈ getItems memory "entries", ∀ c ∈ getItems item "coordinates",
      ∃ d ∈ getItems memory "dimensions",
        getStr d "id" = getStr c "scope_id" ∧ getStr d "kind" = getStr c "dimension") ∧
      ((getItems memory "dimensions").map fun d => getStr d "id").Nodup ∧
      (∀ item ∈ getItems memory "evidence", ∃ e ∈ getItems memory "entries",
        ∃ ref, getStr e "id" = some ref ∧ getItems item "supports" = [.string ref]) ∧
      ((write.entries.map MemoryEntry.id).Nodup →
        ((getItems memory "entries").map fun e => getStr e "id").Nodup ∧
        ((getItems memory "evidence").map fun item => getStr item "id").Nodup) := by
  obtain ⟨memory', items, hmemory', hitems, hdimensions, hentries, hevidence, -⟩ :=
    ingestArguments_eq_ok hwritten
  obtain rfl := Option.some.inj (hmemory.symm.trans hmemory')
  obtain ⟨hwell, hdeclared⟩ := dimensionsOf_spec scope write
  rw [hdimensions, hentries, hevidence]
  refine ⟨?_, ?_, ?_, ?_⟩
  · intro item hitem c hc
    obtain ⟨e, he, occurredAt, -, rfl⟩ := exists_written hitems hitem
    rw [(get_entryItem toString scope (e.2 + 1) occurredAt e.1).2.2.2.1] at hc
    obtain ⟨axis, haxis, rfl⟩ := List.mem_map.mp hc
    obtain ⟨hdimension, hscope, -⟩ := getStr_coordinate (e.2 + 1) occurredAt axis
    obtain ⟨hid, hkind⟩ := getStr_declaration axis
    exact ⟨declaration axis, OrdMap.mem_values.mpr ⟨_, hdeclared e he axis haxis⟩,
      hid.trans hscope.symm, hkind.trans hdimension.symm⟩
  · change ((dimensionsOf scope write).values.map fun d => getStr d "id").Nodup
    rw [ids_of_wellDeclared hwell]
    exact (OrdMap.nodup_keys _).map fun _ _ => Option.some.inj
  · intro item hitem
    obtain ⟨p, hp, rfl⟩ := List.mem_map.mp hitem
    obtain ⟨entry, hentry, hp⟩ := List.mem_flatMap.mp hp
    obtain ⟨x, -, rfl⟩ := List.mem_map.mp hp
    obtain ⟨n, hn⟩ := List.getElem?_of_mem hentry
    obtain ⟨e, he, occurredAt, -, rfl⟩ :=
      exists_of_forall₂ hitems (List.mk_mem_zipIdx_iff_getElem?.mpr hn)
    exact ⟨_, he, entryRef scope entry.id, (get_entryItem toString scope _ occurredAt entry).1,
      (getStr_evidenceItem toString scope entry x).2.2.2.1⟩
  · intro hnodup
    constructor
    · have hrefs : (write.entries.zipIdx.map fun e => some (entryRef scope e.1.id)) =
          (write.entries.map MemoryEntry.id).map fun id => some (entryRef scope id) := by
        rw [← List.zipIdx_map_fst 0 write.entries, List.map_map, List.map_map,
          List.zipIdx_map_fst]
        rfl
      rw [ids_of_written hitems, hrefs]
      exact hnodup.map fun _ _ heq => entryRef_injective (Option.some.inj heq)
    · have hrefs : ((evidenceOf toString scope write).map fun item => getStr item "id") =
          ((stamped write).map fun p => evidenceRef scope p.1.id p.2.2).map some := by
        rw [evidenceOf, List.map_map, List.map_map]
        apply List.map_congr_left
        intro p _
        exact (getStr_evidenceItem toString scope p.1 p.2).1
      rw [hrefs]
      exact (nodup_stamped hnodup).map fun _ _ => Option.some.inj

theorem ingest_integrity_dawn :
    ((getItems (memoryOf dawnScope dawnIngest dawnWrite) "dimensions").map
        fun d => getStr d "id").Nodup ∧
      ((getItems (memoryOf dawnScope dawnIngest dawnWrite) "evidence").map
        fun item => getStr item "id").Nodup := by
  obtain ⟨document, hwritten, hmemory⟩ := ingest_dawn
  obtain ⟨-, hdimensions, -, hrefs⟩ := ingest_integrity hwritten hmemory
  exact ⟨hdimensions, (hrefs nodup_dawn).2⟩

end Integrity

end Shown

end Choreographer.KernelWrites
