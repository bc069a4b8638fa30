import Choreographer.Documents
import Choreographer.Lib.Debts
import Choreographer.Orchestrate
import Mathlib.Algebra.Order.Field.Power
import Mathlib.Data.Rat.Defs

namespace Choreographer.RuntimeExecutor

open Choreographer.Lib.SortedMaps Choreographer.Lib.Updates Choreographer.Lib.Programs
open Choreographer.Lib.Debts
open Choreographer.Texts Choreographer.Values Choreographer.Documents Choreographer.Deliberations
open Choreographer.Orchestrate

section Numbers

abbrev I32 := { n : Int // -2 ^ 31 ≤ n ∧ n < 2 ^ 31 }
abbrev I64 := { n : Int // -2 ^ 63 ≤ n ∧ n < 2 ^ 63 }

def numberOfInt (n : Int) (h : -2 ^ 63 ≤ n ∧ n < 2 ^ 63) : Number :=
  if 0 ≤ n then .posInt ⟨n.toNat, by omega⟩ else .negInt ⟨(-n - 1).toNat, by omega⟩

/-- The 53 bits a natural number is kept with, rounded to the nearest and ties to even. -/
def roundedMantissa (n : Nat) : Nat :=
  if n.log2 ≤ 52 then n * 2 ^ (52 - n.log2)
  else
    let unit := 2 ^ (n.log2 - 52)
    if 2 * (n % unit) < unit ∨ 2 * (n % unit) = unit ∧ n / unit % 2 = 0 then n / unit
    else n / unit + 1

/-- The bits of the double nearest to a natural number. The carry of a mantissa that
rounds up goes into the exponent. -/
def doubleOfNat (n : Nat) : Nat :=
  if n = 0 then 0 else (n.log2 + 1023) * 2 ^ 52 + (roundedMantissa n - 2 ^ 52)

example : doubleOfNat (2 ^ 53 + 1) = doubleOfNat (2 ^ 53) := by decide

def signBit : Nat := 2 ^ 63

def asF64 : Number → U64
  | .posInt n => Fin.ofNat (2 ^ 64) (doubleOfNat n.val)
  | .negInt n => Fin.ofNat (2 ^ 64) (signBit + doubleOfNat (n.val + 1))
  | .float bits => bits

def isFinite (bits : U64) : Bool := bits.val / 2 ^ 52 % 2 ^ 11 ≠ 2 ^ 11 - 1

end Numbers

section Wire

/-- A value of the wire format; what has no kind is there too. -/
inductive PbValue
  | unset
  | null
  | bool (b : Bool)
  | number (bits : U64)
  | string (s : String)
  | list (values : List PbValue)
  | struct (fields : List (String × PbValue))

mutual

def jsonToPbValue : Value → PbValue
  | .null => .null
  | .bool b => .bool b
  | .number n => .number (asF64 n)
  | .string s => .string s
  | .array items => .list (jsonToPbItems items)
  | .object entries => .struct (jsonToPbFields entries)

def jsonToPbItems : List Value → List PbValue
  | [] => []
  | item :: items => jsonToPbValue item :: jsonToPbItems items

def jsonToPbFields : List (String × Value) → List (String × PbValue)
  | [] => []
  | (key, value) :: entries => (key, jsonToPbValue value) :: jsonToPbFields entries

end

mutual

def pbValueToJson : PbValue → Value
  | .unset => .null
  | .null => .null
  | .bool b => .bool b
  | .number bits => if isFinite bits then .number (.float bits) else .null
  | .string s => .string s
  | .list values => .array (pbItemsToJson values)
  | .struct fields => .object (pbFieldsToJson fields)

def pbItemsToJson : List PbValue → List Value
  | [] => []
  | value :: values => pbValueToJson value :: pbItemsToJson values

def pbFieldsToJson : List (String × PbValue) → List (String × Value)
  | [] => []
  | (key, value) :: fields => (key, pbValueToJson value) :: pbFieldsToJson fields

end

structure RuntimePrincipal where
  tenantId : String
  actorId : String
  roles : List String

structure CreateSessionRequest where
  sessionId : String
  repoUrl : String
  repoRef : String
  sourceRepoPath : String
  allowedPaths : List String
  principal : Option RuntimePrincipal
  metadata : OrdMap String String
  expiresInSeconds : I32

structure InvokeToolRequest where
  sessionId : String
  toolName : String
  correlationId : String
  args : Option (List (String × PbValue))
  approved : Bool

structure RuntimeError where
  code : String
  message : String

structure Artifact where
  id : String
  name : String
  path : String
  contentType : String
  sizeBytes : I64
  sha256 : String

inductive InvocationStatus
  | unspecified
  | running
  | succeeded
  | failed
  | denied
deriving DecidableEq

/-- A status as the wire has it; a number that is none is unspecified. -/
def InvocationStatus.ofWire (n : I32) : InvocationStatus :=
  if n.val = 1 then .running
  else if n.val = 2 then .succeeded
  else if n.val = 3 then .failed
  else if n.val = 4 then .denied
  else .unspecified

def invocationStatusName : InvocationStatus → String
  | .succeeded => "succeeded"
  | .failed => "failed"
  | .denied => "denied"
  | .running => "running"
  | .unspecified => "unspecified"

structure Invocation where
  id : String
  sessionId : String
  toolName : String
  correlationId : String
  status : I32
  durationMs : I64
  exitCode : I32
  output : Option PbValue
  outputRef : String
  logsRef : String
  error : Option RuntimeError
  artifacts : List Artifact

inductive Code
  | notFound
  | invalidArgument
  | failedPrecondition
  | other
deriving DecidableEq

def mapRuntimeStatus : Code → DomainError
  | .notFound => .notFound "runtime resource"
  | .invalidArgument => .invariantViolated "runtime rejected request"
  | .failedPrecondition => .invariantViolated "runtime rejected request"
  | .other => .invariantViolated "runtime transport error"

end Wire

section Request

structure RuntimeExecutionRequest where
  sessionId : Option String
  requestedSessionId : Option String
  repoUrl : Option String
  repoRef : Option String
  sourceRepoPath : Option String
  allowedPaths : List String
  sessionMetadata : OrdMap String String
  expiresInSeconds : Option U32
  principal : RuntimePrincipal
  toolName : String
  correlationId : String
  approved : Bool
  args : List (String × Value)

variable (options : Attributes) (winner : Proposal)

/-- What the options say, and the winner's own attributes where they say nothing. -/
def lookupValue (key : String) : Option Value :=
  (options.get key).or (winner.attributes.get key)

def optionalStringValue (key : String) : Except DomainError (Option String) :=
  match lookupValue options winner key with
  | none => .ok none
  | some .null => .ok none
  | some (.string value) => if trim value = "" then .ok none else .ok (some value)
  | some _ => .error (.invariantViolated "runtime string option must be a string")

def requiredStringValue (key : String) : Except DomainError String := do
  let value ← optionalStringValue options winner key
  okOr value (.emptyField key)

def optionalBoolValue (key : String) : Except DomainError (Option Bool) :=
  match lookupValue options winner key with
  | none => .ok none
  | some .null => .ok none
  | some (.bool value) => .ok (some value)
  | some _ => .error (.invariantViolated "runtime bool option must be a bool")

def u32Of (value : Value) : Option U32 := do
  let n ← value.asU64
  if h : n.val < 2 ^ 32 then some ⟨n.val, h⟩ else none

def optionalU32Value (key : String) : Except DomainError (Option U32) :=
  match lookupValue options winner key with
  | none => .ok none
  | some .null => .ok none
  | some value => some <$> okOr (u32Of value)
      (.invariantViolated "runtime numeric option must be a non-negative integer")

def pathItem : Value → Option String
  | .string item => if trim item = "" then none else some item
  | _ => none

def optionalStringArray (key : String) : Except DomainError (Option (List String)) :=
  match lookupValue options winner key with
  | none => .ok none
  | some .null => .ok none
  | some value => some <$> okOr (value.asArray.bind (·.mapM pathItem))
      (.invariantViolated "runtime string array option must be an array of strings")

def optionalStringMap (key : String) : Except DomainError (Option (OrdMap String String)) :=
  match lookupValue options winner key with
  | none => .ok none
  | some .null => .ok none
  | some value => do
    let entries ← okOr
      (value.asObject.bind (·.mapM fun e => e.2.asStr.map fun text => (e.1, text)))
      (.invariantViolated "runtime metadata must be an object of strings")
    .ok (some (OrdMap.ofList entries))

def optionalObjectValue (key : String) : Except DomainError (Option (List (String × Value))) :=
  match lookupValue options winner key with
  | none => .ok none
  | some .null => .ok none
  | some value => some <$> okOr value.asObject
      (.invariantViolated "runtime args must be a JSON object")

/-- A key given a value, unless it has one. -/
def orInsert (key value : String) (m : OrdMap String String) : OrdMap String String :=
  if m.contains key then m else m.insert key value

def RuntimeExecutionRequest.fromInputs (defaultPrincipal : RuntimePrincipal) :
    Except DomainError RuntimeExecutionRequest := do
  let toolName ← requiredStringValue options winner "runtime.tool_name"
  let correlationId ← optionalStringValue options winner "runtime.correlation_id"
  let approved ← optionalBoolValue options winner "runtime.approved"
  let sessionId ← optionalStringValue options winner "runtime.session_id"
  let requestedSessionId ← optionalStringValue options winner "runtime.session.requested_id"
  let repoUrl ← optionalStringValue options winner "runtime.session.repo_url"
  let repoRef ← optionalStringValue options winner "runtime.session.repo_ref"
  let sourceRepoPath ← optionalStringValue options winner "runtime.session.source_repo_path"
  let allowedPaths ← optionalStringArray options winner "runtime.session.allowed_paths"
  let expiresInSeconds ← optionalU32Value options winner "runtime.session.expires_in_seconds"
  let args ← optionalObjectValue options winner "runtime.args"
  let metadata ← optionalStringMap options winner "runtime.session.metadata"
  let sessionMetadata := (metadata.getD OrdMap.empty)
    |> orInsert "choreographer.proposal_id" winner.id.asStr
    |> orInsert "choreographer.author_id" winner.author.asStr
    |> orInsert "choreographer.specialty" winner.specialty.asStr
  pure ⟨sessionId, requestedSessionId, repoUrl, repoRef, sourceRepoPath, allowedPaths.getD [],
    sessionMetadata, expiresInSeconds, defaultPrincipal, toolName,
    correlationId.getD winner.id.asStr, approved.getD false, args.getD []⟩

/-- A number of seconds the wire has no room for is not sent. -/
def expiryOnWire (seconds : Option U32) : I32 :=
  match seconds with
  | none => ⟨0, by decide⟩
  | some n => if h : n.val < 2 ^ 31 then ⟨n.val, by omega⟩ else ⟨0, by decide⟩

def RuntimeExecutionRequest.createSessionRequest (self : RuntimeExecutionRequest) :
    CreateSessionRequest :=
  ⟨self.requestedSessionId.getD "", self.repoUrl.getD "", self.repoRef.getD "",
    self.sourceRepoPath.getD "", self.allowedPaths, some self.principal, self.sessionMetadata,
    expiryOnWire self.expiresInSeconds⟩

def RuntimeExecutionRequest.invokeToolRequest (self : RuntimeExecutionRequest)
    (sessionId : String) : InvokeToolRequest :=
  ⟨sessionId, self.toolName, self.correlationId,
    some (jsonToPbFields self.args), self.approved⟩

end Request

section Outcome

def artifactJson (artifact : Artifact) : Value :=
  .object (OrdMap.ofList [("id", .string artifact.id), ("name", .string artifact.name),
    ("path", .string artifact.path), ("content_type", .string artifact.contentType),
    ("size_bytes", .number (numberOfInt artifact.sizeBytes.val artifact.sizeBytes.property)),
    ("sha256", .string artifact.sha256)]).entries

def errorJson (error : RuntimeError) : Value :=
  let fields := (if error.code = "" then [] else [("code", Value.string error.code)]) ++
    (if error.message = "" then [] else [("message", Value.string error.message)])
  .object (OrdMap.ofList fields).entries

theorem i64_of_i32 (n : I32) : -2 ^ 63 ≤ n.val ∧ n.val < 2 ^ 63 := by
  have h := n.property
  omega

/-- The fields of an outcome that are always there, and those that are there when the
invocation has them. -/
def outcomeFields (status : InvocationStatus) (invocation : Invocation) : List (String × Value) :=
  [("runtime.status", Value.string (invocationStatusName status)),
    ("runtime.session_id", Value.string invocation.sessionId),
    ("runtime.tool_name", Value.string invocation.toolName),
    ("runtime.correlation_id", Value.string invocation.correlationId),
    ("runtime.exit_code",
      Value.number (numberOfInt invocation.exitCode.val (i64_of_i32 invocation.exitCode)))] ++
  (invocation.output.map fun value => ("runtime.output", pbValueToJson value)).toList ++
  (if invocation.outputRef = "" then [] else
    [("runtime.output_ref", Value.string invocation.outputRef)]) ++
  (if invocation.logsRef = "" then [] else [("runtime.logs_ref", Value.string invocation.logsRef)]) ++
  (invocation.error.map fun error => ("runtime.error", errorJson error)).toList ++
  (if invocation.artifacts = [] then [] else
    [("runtime.artifacts", Value.array (invocation.artifacts.map artifactJson))])

def DurationMs.tryFrom (value : I64) : Except DomainError DurationMs :=
  if h : value.val < 0 then .error (.outOfRange "duration_ms" value.val 0 (2 ^ 32 - 1))
  else .ok ⟨⟨value.val.toNat, by have := value.property; omega⟩⟩

def executionOutcomeFromInvocation (invocation : Invocation) :
    Except DomainError ExecutionOutcome :=
  let status := InvocationStatus.ofWire invocation.status
  if status = .unspecified ∨ status = .running then
    .error (.invariantViolated "runtime invocation did not reach terminal state")
  else do
    let duration ← DurationMs.tryFrom invocation.durationMs
    let output ← Attributes.new (OrdMap.ofList (outcomeFields status invocation))
    pure ⟨invocation.id, status = .succeeded, duration, output⟩

end Outcome

section Execution

inductive RuntimeCall
  | createSession (request : CreateSessionRequest)
  | invokeTool (request : InvokeToolRequest)
  | closeSession (sessionId : String)

/-- The runtime, as the executor sees it: a session has its id, and each call may fail. -/
def runtime : Interface where
  Call := RuntimeCall
  Answer
    | .createSession _ => Except Code (Option String)
    | .invokeTool _ => Except Code (Option Invocation)
    | .closeSession _ => Except Code Unit

def createSession (request : CreateSessionRequest) : Prog runtime (Except Code (Option String)) :=
  Prog.call (I := runtime) (.createSession request)

def invokeTool (request : InvokeToolRequest) : Prog runtime (Except Code (Option Invocation)) :=
  Prog.call (I := runtime) (.invokeTool request)

def closeSession (sessionId : String) : Prog runtime (Except Code Unit) :=
  Prog.call (I := runtime) (.closeSession sessionId)

abbrev Executing := ExceptT DomainError (Prog runtime)

def ofExcept {α : Type} (x : Except DomainError α) : Executing α := ExceptT.mk (Prog.done x)

def openSession (request : RuntimeExecutionRequest) : Executing (String × Bool) :=
  match request.sessionId with
  | some existing => pure (existing, false)
  | none => do
    let response ← ExceptT.lift (createSession request.createSessionRequest)
    let session ← ofExcept (response.mapError mapRuntimeStatus)
    let id ← ofExcept
      (okOr session (.invariantViolated "runtime create_session returned no session"))
    pure (id, true)

/-- A session is closed whatever comes of it. -/
def bestEffortCloseSession (sessionId : String) : Prog runtime Unit := do
  let _ ← closeSession sessionId
  pure ()

def closeIfCreated (session : String × Bool) : Prog runtime Unit :=
  if session.2 then bestEffortCloseSession session.1 else pure ()

def readInvocation (invoked : Except Code (Option Invocation)) :
    Except DomainError ExecutionOutcome := do
  let response ← invoked.mapError mapRuntimeStatus
  let invocation ← okOr response (.invariantViolated "runtime invoke_tool returned no invocation")
  executionOutcomeFromInvocation invocation

variable (principal : RuntimePrincipal)

def execute (winner : Proposal) (options : Attributes) : Executing ExecutionOutcome := do
  let request ← ofExcept (RuntimeExecutionRequest.fromInputs options winner principal)
  let session ← openSession request
  let invoked ← ExceptT.lift (invokeTool (request.invokeToolRequest session.1))
  ExceptT.lift (closeIfCreated session)
  ofExcept (readInvocation invoked)

end Execution

section Sessions

/-- Whoever makes a session has to ask for it to be closed, and asks once. -/
def closings : Ledger runtime String
  | ⟨.createSession _, .ok (some id)⟩ => .gain id
  | ⟨.closeSession id, _⟩ => .pay id
  | _ => .nothing

def opens (id : String) : Event runtime → Bool
  | ⟨.createSession _, .ok (some made)⟩ => made = id
  | _ => false

def closes (id : String) : Event runtime → Bool
  | ⟨.closeSession asked, .ok _⟩ => asked = id
  | _ => false

/-- The runtime would not close a session. It stays open, of which the log is warned. -/
def leaves (id : String) : Event runtime → Bool
  | ⟨.closeSession asked, .error _⟩ => asked = id
  | _ => false

/-- Every session that was opened is one that some client still has to have closed, one
that was closed, or one that the runtime would not close. -/
def Accounted (c : Config runtime (List (Event runtime))) : Prop :=
  ∃ held, List.Forall₂ (Pays closings) held c.clients ∧
    ∀ id, c.world.countP (opens id) =
      c.world.countP (closes id) + c.world.countP (leaves id) + held.count (some id)

theorem gained_closings (id : String) (log : List (Event runtime)) :
    gained closings id log = log.countP (opens id) := by
  unfold gained
  congr 1
  funext e
  obtain ⟨_ | _ | _, (_ | _ | _)⟩ := e <;> simp [closings, opens]

theorem paid_closings (id : String) (log : List (Event runtime)) :
    paid closings id log = log.countP (closes id) + log.countP (leaves id) := by
  induction log with
  | nil => rfl
  | cons e log ih =>
    have hone : (if closings e = .pay id then 1 else 0) =
        (if closes id e then 1 else 0) + if leaves id e then 1 else 0 := by
      obtain ⟨_ | _ | _, (_ | _ | _)⟩ := e <;> simp [closings, closes, leaves]
    simp only [paid, List.countP_cons, decide_eq_true_eq] at ih ⊢
    omega

theorem accounted_of_balanced {c : Config runtime (List (Event runtime))}
    (h : Balanced closings c) : Accounted c := by
  obtain ⟨held, hpays, hbooks⟩ := h
  refine ⟨held, hpays, fun id => ?_⟩
  rw [← gained_closings, ← paid_closings, hbooks id]

theorem carries_invoke (request : InvokeToolRequest) (held : Option String) :
    Carries closings held (invokeTool request) (fun _ held' => held' = held) := fun _ => rfl

def owedFor (session : String × Bool) : Option String := if session.2 then some session.1 else none

def owedAfter : Except DomainError (String × Bool) → Option String
  | .ok session => owedFor session
  | .error _ => none

theorem carries_openSession (request : RuntimeExecutionRequest) :
    Carries closings none (openSession request).run (fun r held => held = owedAfter r) := by
  unfold openSession
  cases request.sessionId with
  | some existing => rfl
  | none =>
    intro answer
    obtain code | id := (answer : Except Code (Option String))
    · rfl
    · cases id with
      | none => rfl
      | some id => exact ⟨rfl, rfl⟩

theorem carries_closeIfCreated (session : String × Bool) :
    Carries closings (owedFor session) (closeIfCreated session) (fun _ held => held = none) := by
  obtain ⟨id, created⟩ := session
  cases created with
  | false => rfl
  | true => exact fun _ => ⟨rfl, rfl⟩

/-- An execution asks for the session it made to be closed, and no other, whatever comes of
its calls. -/
theorem carries_execute (principal : RuntimePrincipal) (winner : Proposal) (options : Attributes) :
    Carries closings none (execute principal winner options).run (fun _ held => held = none) := by
  apply Carries.bindE carries_ofExcept
  · exact fun _ _ h => h.2
  · rintro request held ⟨-, rfl⟩
    apply Carries.bindE (carries_openSession request)
    · exact fun _ _ h => h
    · rintro session held rfl
      apply Carries.bindE (carries_invoke _ _).lift
      · rintro e held ⟨a, ha, -⟩
        cases ha
      · rintro invoked held ⟨a, -, rfl⟩
        apply Carries.bindE (carries_closeIfCreated session).lift
        · rintro e held ⟨a, ha, -⟩
          cases ha
        · rintro _ held ⟨_, -, rfl⟩
          rfl

/-- The programs that execute a winner, each run for what it does. -/
def Executes (principal : RuntimePrincipal) (p : Prog runtime Unit) : Prop :=
  ∃ winner options, p = (execute principal winner options).run >>= fun _ => pure ()

/-- However many executions share a runtime, whatever it answers and in whatever order
their calls are served: the sessions that are open are those that the executions still
running hold, each of which will ask for its own to be closed, and those whose closing was
refused. When all have ended every session was closed as often as it was opened, but for
the refusals. -/
theorem sessions_balance (principal : RuntimePrincipal)
    {c : Config runtime (List (Event runtime))}
    (h : Reachable recording (Executes principal) (fun _ _ => False) [] c) :
    Accounted c ∧
      ((∀ p ∈ c.clients, p = .done ()) → ∀ id, c.world.countP (opens id) =
        c.world.countP (closes id) + c.world.countP (leaves id)) := by
  have hbalanced : Balanced closings c := by
    apply balanced_of_reachable _ h
    rintro p ⟨winner, options, rfl⟩
    apply (carries_execute principal winner options).bind
    rintro r held rfl
    rfl
  refine ⟨accounted_of_balanced hbalanced, fun hdone id => ?_⟩
  rw [← gained_closings, ← paid_closings, hbalanced.settled hdone]

def formatter : RuntimePrincipal := ⟨"choreographer", "choreographer", ["developer"]⟩

def formatOptions : Attributes :=
  ⟨OrdMap.empty.insert "runtime.tool_name" (.string "fs.format"), by decide⟩

def formatWinner : Proposal :=
  ⟨⟨"proposal-1", by decide⟩, ⟨"agent-1", by decide⟩, ⟨"formatting", by decide⟩, "format it",
    Attributes.empty, ⟨0, 0⟩, ⟨0, 0⟩, 0⟩

theorem lookup_formatOptions (key : String) : lookupValue formatOptions formatWinner key =
    if key = "runtime.tool_name" then some (.string "fs.format") else none := by
  by_cases h : key = "runtime.tool_name"
  · simp [lookupValue, formatOptions, Attributes.get, h]
  · simp [lookupValue, formatOptions, formatWinner, Attributes.get, Attributes.empty,
      OrdMap.get?_insert, h]

theorem fromInputs_format : ∃ request,
    RuntimeExecutionRequest.fromInputs formatOptions formatWinner formatter = .ok request ∧
      request.sessionId = none := by
  have htool : trim "fs.format" ≠ "" := by decide
  simp [RuntimeExecutionRequest.fromInputs, requiredStringValue, optionalStringValue,
    optionalBoolValue, optionalStringArray, optionalU32Value, optionalObjectValue,
    optionalStringMap, lookup_formatOptions, htool]

theorem execute_format : ∃ (request : RuntimeExecutionRequest) (opened : _ → Prog runtime Unit)
    (invoked : _ → Prog runtime Unit) (closed : _ → Prog runtime Unit),
    ((execute formatter formatWinner formatOptions).run >>= fun _ => pure ()) =
        .ask (.createSession request.createSessionRequest) opened ∧
      opened (.ok (some "session-1")) =
        .ask (.invokeTool (request.invokeToolRequest "session-1")) invoked ∧
      invoked (.error .notFound) = .ask (.closeSession "session-1") closed ∧
      ∀ answer, closed answer = .done () := by
  obtain ⟨request, hrequest, hsession⟩ := fromInputs_format
  refine ⟨request, ?_⟩
  simp only [execute, hrequest]
  cases request
  subst hsession
  exact ⟨_, _, _, rfl, rfl, rfl, fun _ => rfl⟩

/-- A runtime that makes a session of the same name for everybody, can do nothing with it,
and closes none before it was asked five things. -/
def strained (c : RuntimeCall) (log : List (Event runtime)) :
    runtime.Answer c × List (Event runtime) :=
  let answer : runtime.Answer c := match c with
    | .createSession _ => .ok (some "session-1")
    | .invokeTool _ => .error .notFound
    | .closeSession _ => if log.length < 5 then .error .other else .ok ()
  (answer, log ++ [⟨c, answer⟩])

/-- Two executions at once, the second of which makes its session while the first has its
own. The closing of the first is refused. -/
theorem sessions_balance_format : ∃ c : Config runtime (List (Event runtime)),
    Reachable recording (Executes formatter) (fun _ _ => False) [] c ∧
      (∀ p ∈ c.clients, p = .done ()) ∧ c.world.countP (opens "session-1") = 2 ∧
      c.world.countP (closes "session-1") + c.world.countP (leaves "session-1") = 2 := by
  obtain ⟨request, opened, invoked, closed, hprogram, hopened, hinvoked, hclosed⟩ := execute_format
  let p : Prog runtime Unit :=
    (execute formatter formatWinner formatOptions).run >>= fun _ => pure ()
  have harrived : Reachable recording (Executes formatter) (fun _ _ => False) [] ⟨[], [p, p]⟩ := by
    refine reachable_arrivals .refl ?_
    simp only [List.mem_cons, List.not_mem_nil, or_false, or_self]
    rintro q rfl
    exact ⟨formatWinner, formatOptions, rfl⟩
  have hstrained : ∀ c w, recording c w (strained c w).1 (strained c w).2 := fun _ _ => rfl
  have hreach := reachable_turns hstrained harrived [0, 1, 1, 0, 0, 1]
  have hend : [0, 1, 1, 0, 0, 1].foldl (Config.turn strained) ⟨[], [p, p]⟩ =
      ⟨[⟨.createSession request.createSessionRequest, .ok (some "session-1")⟩,
        ⟨.createSession request.createSessionRequest, .ok (some "session-1")⟩,
        ⟨.invokeTool (request.invokeToolRequest "session-1"), .error .notFound⟩,
        ⟨.invokeTool (request.invokeToolRequest "session-1"), .error .notFound⟩,
        ⟨.closeSession "session-1", .error .other⟩,
        ⟨.closeSession "session-1", .ok ()⟩], [.done (), .done ()]⟩ := by
    have hrefused := hclosed (.error .other)
    have hdone := hclosed (.ok ())
    simp [p, hprogram, Config.turn, strained, hopened, hinvoked, hrefused, hdone]
  rw [hend] at hreach
  have hdone : ∀ q ∈ [Prog.done (), (Prog.done () : Prog runtime Unit)], q = .done () := by simp
  have hbalance := (sessions_balance formatter hreach).2 hdone "session-1"
  exact ⟨_, hreach, hdone, rfl, hbalance.symm⟩

end Sessions

section Doubles

def doubleValue (bits : U64) : ℚ :=
  let exponent : Nat := bits.val / 2 ^ 52 % 2 ^ 11
  let mantissa : Nat := bits.val % 2 ^ 52
  let size : ℚ :=
    if exponent = 0 then mantissa / 2 ^ 1074
    else ((2 ^ 52 + mantissa : Nat) : ℚ) * 2 ^ ((exponent : ℤ) - 1075)
  if bits.val < signBit then size else -size

theorem two_pow_split {a b c : Nat} (h : a + b = c) : 2 ^ a * 2 ^ b = 2 ^ c := by
  rw [← pow_add, h]

theorem roundedMantissa_bounds {n : Nat} (hn : n ≠ 0) :
    2 ^ 52 ≤ roundedMantissa n ∧ roundedMantissa n ≤ 2 ^ 53 := by
  have hlow : 2 ^ n.log2 ≤ n := Nat.log2_self_le hn
  have hhigh : n < 2 ^ (n.log2 + 1) := Nat.lt_log2_self
  unfold roundedMantissa
  by_cases he : n.log2 ≤ 52
  · rw [if_pos he, ← two_pow_split (a := n.log2) (b := 52 - n.log2) (by omega),
      ← two_pow_split (a := n.log2 + 1) (b := 52 - n.log2) (c := 53) (by omega)]
    exact ⟨Nat.mul_le_mul_right _ hlow, Nat.mul_le_mul_right _ hhigh.le⟩
  · have hpos : 0 < 2 ^ (n.log2 - 52) := by positivity
    have hquot : 2 ^ 52 ≤ n / 2 ^ (n.log2 - 52) := by
      rw [Nat.le_div_iff_mul_le hpos, two_pow_split (c := n.log2) (by omega)]
      exact hlow
    have hquot' : n / 2 ^ (n.log2 - 52) < 2 ^ 53 := by
      rw [Nat.div_lt_iff_lt_mul hpos, two_pow_split (c := n.log2 + 1) (by omega)]
      exact hhigh
    rw [if_neg he]
    dsimp only
    split_ifs <;> omega

theorem roundedMantissa_exact {n : Nat} (hn : n ≠ 0) (hsmall : n ≤ 2 ^ 53) :
    roundedMantissa n < 2 ^ 53 ∧ roundedMantissa n * 2 ^ n.log2 = n * 2 ^ 52 := by
  have hhigh : n < 2 ^ (n.log2 + 1) := Nat.lt_log2_self
  by_cases he : n.log2 ≤ 52
  · rw [roundedMantissa, if_pos he, mul_assoc, two_pow_split (c := 52) (by omega)]
    refine ⟨?_, rfl⟩
    rw [← two_pow_split (a := n.log2 + 1) (b := 52 - n.log2) (c := 53) (by omega)]
    exact Nat.mul_lt_mul_of_pos_right hhigh (by positivity)
  · -- The last of these is the only one with an exponent that large.
    have h53 : 2 ^ 53 ≤ 2 ^ n.log2 := Nat.pow_le_pow_right (by decide) (by omega)
    have hlast : n = 2 ^ 53 := le_antisymm hsmall (h53.trans (Nat.log2_self_le hn))
    subst hlast
    decide

theorem doubleOfNat_lt {n : Nat} (hn : n < 2 ^ 64) : doubleOfNat n < 2 ^ 63 ∧
    doubleOfNat n / 2 ^ 52 < 2 ^ 11 - 1 := by
  unfold doubleOfNat
  by_cases h : n = 0
  · simp [h]
  · rw [if_neg h]
    obtain ⟨hlow, hhigh⟩ := roundedMantissa_bounds h
    have hlog : n.log2 < 64 := (Nat.log2_lt h).mpr hn
    omega

theorem isFinite_asF64 {n : Number} (h : ∀ bits, n ≠ .float bits) : isFinite (asF64 n) = true := by
  cases n with
  | float bits => exact absurd rfl (h bits)
  | posInt n =>
    obtain ⟨hlt, hexponent⟩ := doubleOfNat_lt n.isLt
    apply decide_eq_true
    simp only [asF64, Fin.val_ofNat]
    omega
  | negInt n =>
    have hn : n.val + 1 < 2 ^ 64 := by omega
    obtain ⟨hlt, hexponent⟩ := doubleOfNat_lt hn
    apply decide_eq_true
    simp only [asF64, signBit, Fin.val_ofNat]
    omega

theorem doubleValue_of_parts {bits : U64} {exponent mantissa : Nat} {negative : Bool}
    (hbits : bits.val = (if negative then signBit else 0) + exponent * 2 ^ 52 + mantissa)
    (hexponent : 0 < exponent) (hexponent' : exponent < 2 ^ 11) (hmantissa : mantissa < 2 ^ 52) :
    doubleValue bits = (if negative then -1 else 1) *
      (((2 ^ 52 + mantissa : Nat) : ℚ) * 2 ^ ((exponent : ℤ) - 1075)) := by
  have he : bits.val / 2 ^ 52 % 2 ^ 11 = exponent := by
    unfold signBit at hbits
    split_ifs at hbits <;> omega
  have hm : bits.val % 2 ^ 52 = mantissa := by
    unfold signBit at hbits
    split_ifs at hbits <;> omega
  have hs : bits.val < signBit ↔ negative = false := by
    unfold signBit at hbits ⊢
    cases negative <;> simp at hbits ⊢ <;> omega
  simp only [doubleValue, he, hm, hs, if_neg hexponent.ne']
  cases negative <;> simp

def integerValue : Number → Option Int
  | .posInt n => some n.val
  | .negInt n => some (-(n.val + 1 : Nat))
  | .float _ => none

theorem doubleValue_natural {bits : U64} {n : Nat} (negative : Bool) (hn : n ≠ 0)
    (hsmall : n ≤ 2 ^ 53)
    (hbits : bits.val = (if negative then signBit else 0) + doubleOfNat n) :
    doubleValue bits = (if negative then -1 else 1) * n := by
  obtain ⟨hmantissa, hexact⟩ := roundedMantissa_exact hn hsmall
  have hlow := (roundedMantissa_bounds hn).1
  have hlog : n.log2 < 64 := (Nat.log2_lt hn).mpr (by omega)
  rw [doubleOfNat, if_neg hn, ← Nat.add_assoc] at hbits
  rw [doubleValue_of_parts hbits (by omega) (by omega) (by omega), Nat.add_sub_cancel' hlow]
  congr 1
  have hpow : (2 : ℚ) ^ (((n.log2 + 1023 : Nat) : ℤ) - 1075) = 2 ^ n.log2 / 2 ^ 52 := by
    have hexponent : ((n.log2 + 1023 : Nat) : ℤ) - 1075 = (n.log2 : ℤ) - (52 : Nat) := by
      omega
    rw [hexponent, zpow_sub₀ (by norm_num), zpow_natCast, zpow_natCast]
  rw [hpow, mul_div_assoc', div_eq_iff (by positivity)]
  exact_mod_cast hexact

theorem doubleValue_asF64 {number : Number} {n : Int} (h : integerValue number = some n)
    (hsmall : n.natAbs ≤ 2 ^ 53) : doubleValue (asF64 number) = n := by
  cases number with
  | float bits => simp [integerValue] at h
  | posInt m =>
    obtain rfl : (m.val : Int) = n := by simpa [integerValue] using h
    rw [Int.natAbs_natCast] at hsmall
    by_cases hzero : m.val = 0
    · have hbits : (asF64 (.posInt m)).val = 0 := by
        rw [asF64, hzero]
        rfl
      simp only [doubleValue, hbits, hzero, Nat.zero_div, Nat.zero_mod, if_true, Nat.cast_zero,
        zero_div, neg_zero, ite_self, Int.cast_zero]
    · have hlt := (doubleOfNat_lt m.isLt).1
      rw [doubleValue_natural false hzero hsmall]
      · simp
      · simp [asF64]
        omega
  | negInt m =>
    obtain rfl : -((m.val + 1 : Nat) : Int) = n := by simpa [integerValue] using h
    rw [Int.natAbs_neg, Int.natAbs_natCast] at hsmall
    have hlt := (doubleOfNat_lt (show m.val + 1 < 2 ^ 64 by omega)).1
    rw [doubleValue_natural true (Nat.succ_ne_zero _) hsmall]
    · simp
    · simp [asF64, signBit]
      omega

end Doubles

section RoundTrip

theorem jsonToPbItems_eq (items : List Value) : jsonToPbItems items = items.map jsonToPbValue := by
  induction items with
  | nil => rfl
  | cons item items ih => rw [jsonToPbItems, ih, List.map_cons]

theorem jsonToPbFields_eq (entries : List (String × Value)) :
    jsonToPbFields entries = entries.map fun e => (e.1, jsonToPbValue e.2) := by
  induction entries with
  | nil => rfl
  | cons e entries ih => rw [jsonToPbFields, ih, List.map_cons]

theorem pbItemsToJson_eq (values : List PbValue) :
    pbItemsToJson values = values.map pbValueToJson := by
  induction values with
  | nil => rfl
  | cons value values ih => rw [pbItemsToJson, ih, List.map_cons]

theorem pbFieldsToJson_eq (fields : List (String × PbValue)) :
    pbFieldsToJson fields = fields.map fun e => (e.1, pbValueToJson e.2) := by
  induction fields with
  | nil => rfl
  | cons e fields ih => rw [pbFieldsToJson, ih, List.map_cons]

/-- What a document becomes on its way over the wire and back: the same but for its
numbers, each of which is a double with the value it had, or the nearest to it. -/
inductive Carried : Value → Value → Prop
  | null : Carried .null .null
  | bool (b : Bool) : Carried (.bool b) (.bool b)
  | string (s : String) : Carried (.string s) (.string s)
  | double (bits : U64) : Carried (.number (.float bits)) (.number (.float bits))
  | integer {number : Number} {n : Int} {bits : U64} (h : integerValue number = some n)
    (hbits : bits = asF64 number) (hexact : n.natAbs ≤ 2 ^ 53 → doubleValue bits = n) :
    Carried (.number number) (.number (.float bits))
  | array {items items' : List Value} (h : List.Forall₂ Carried items items') :
    Carried (.array items) (.array items')
  | object {entries entries' : List (String × Value)}
    (hkeys : entries.map Prod.fst = entries'.map Prod.fst)
    (h : List.Forall₂ Carried (entries.map Prod.snd) (entries'.map Prod.snd)) :
    Carried (.object entries) (.object entries')

/-- A document in which every double is a number. -/
def Numeric (value : Value) : Prop :=
  ∀ n bits, Lies value n (.number (.float bits)) → isFinite bits = true

theorem carried_number {number : Number} (h : Numeric (.number number)) :
    Carried (.number number) (pbValueToJson (jsonToPbValue (.number number))) := by
  rw [jsonToPbValue, pbValueToJson]
  cases hvalue : integerValue number with
  | none =>
    obtain ⟨bits, rfl⟩ : ∃ bits, number = .float bits := by
      cases number <;> simp [integerValue] at hvalue ⊢
    rw [asF64, if_pos (h 0 bits (.root _))]
    exact .double bits
  | some n =>
    have hinteger : ∀ bits, number ≠ .float bits := by
      rintro bits rfl
      simp [integerValue] at hvalue
    rw [if_pos (isFinite_asF64 hinteger)]
    exact .integer hvalue rfl fun hsmall => doubleValue_asF64 hvalue hsmall

/-- What is sent as the arguments of a tool, read as what it returns is read, is the same
document but for its numbers, and of these the integers up to two to the fifty-third keep
their value. -/
theorem carried_round_trip {value : Value} (h : Numeric value) :
    Carried value (pbValueToJson (jsonToPbValue value)) := by
  induction value using document_induction with
  | null => exact .null
  | bool b => exact .bool b
  | number n => exact carried_number h
  | string s => exact .string s
  | array items ih =>
    rw [jsonToPbValue, jsonToPbItems_eq, pbValueToJson, pbItemsToJson_eq, List.map_map]
    apply Carried.array
    rw [List.forall₂_map_right_iff, List.forall₂_same]
    exact fun item hitem => ih item hitem fun n bits hlies => h (n + 1) bits (.item hitem hlies)
  | object entries ih =>
    rw [jsonToPbValue, jsonToPbFields_eq, pbValueToJson, pbFieldsToJson_eq, List.map_map]
    apply Carried.object
    · rw [List.map_map]
      rfl
    · rw [List.map_map, List.forall₂_map_right_iff, List.forall₂_map_left_iff, List.forall₂_same]
      exact fun e he => ih e he fun n bits hlies => h (n + 1) bits (.field he hlies)

def retries : Value := .array [.number (.posInt 3)]

theorem numeric_retries : Numeric retries := by
  intro n bits h
  obtain _ | ⟨hmem, h⟩ := h
  obtain rfl := List.mem_singleton.mp hmem
  cases h

theorem carried_round_trip_retries :
    Carried retries (.array [.number (.float (asF64 (.posInt 3)))]) :=
  carried_round_trip numeric_retries

end RoundTrip

end Choreographer.RuntimeExecutor
