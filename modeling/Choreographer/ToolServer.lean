import Choreographer.KernelPipes
import Choreographer.ToolCatalog

namespace Choreographer.ToolServer

open Choreographer.Lib.SortedMaps Choreographer.Lib.ByteStrings Choreographer.Lib.Lines
open Choreographer.Texts Choreographer.Values Choreographer.JsonTexts Choreographer.KernelPages
open Choreographer.EvidenceGates Choreographer.JsonFrames Choreographer.ToolCatalog
open Choreographer.KernelPipes (newline)

section Messages

-- A negative integer is kept by its distance from the first of them.
def parseErrorCode : Number := .negInt 32699
def invalidRequestCode : Number := .negInt 32599
def methodNotFoundCode : Number := .negInt 32600
def invalidParamsCode : Number := .negInt 32601

example : writeNumber zeroFloats parseErrorCode = "-32700".toList := by decide

variable (floats : Floats)

def resultMessage (id result : Value) : Value :=
  json [("jsonrpc", .string "2.0"), ("id", id), ("result", result)]

def errorMessage (id : Value) (code : Number) (message : String) : Value :=
  json [("jsonrpc", .string "2.0"), ("id", id),
    ("error", json [("code", .number code), ("message", .string message)])]

def toText (message : Value) : String := String.ofList (write floats message)

def jsonrpcResult (id result : Value) : String := toText floats (resultMessage id result)

def jsonrpcError (id : Value) (code : Number) (message : String) : String :=
  toText floats (errorMessage id code message)

def toolSuccessResult (toStringPretty : Value → String) (structured : Value) : Value :=
  json [("content", .array [json [("type", .string "text"),
      ("text", .string (toStringPretty structured))]]),
    ("structuredContent", structured), ("isError", .bool false)]

def toolErrorResult (message : String) : Value :=
  json [("content", .array [json [("type", .string "text"), ("text", .string message)]]),
    ("isError", .bool true)]

def serverProtocolVersion : String := "2024-11-05"

def initializeResult (identity : McpServerIdentity) (backend grpcTls : String) : Value :=
  json [("protocolVersion", .string serverProtocolVersion),
    ("capabilities", json [("tools", .object [])]),
    ("serverInfo", json [("name", .string identity.name), ("version", .string identity.version)]),
    ("metadata", json [("backend", .string backend), ("grpc_tls", .string grpcTls)])]

end Messages

section Server

/-- What runs the tools, with what it remembers from call to call. -/
structure ToolBackend (σ : Type) where
  backendName : String
  grpcTlsModeName : String
  supportsTool : String → Bool
  callTool : String → Value → σ → Except String Value × σ

/-- A server over a backend, with the texts it has for its tools and the help it gives. -/
structure ChoreoMcpServer (σ : Type) where
  backend : ToolBackend σ
  identity : McpServerIdentity
  texts : ToolTexts
  toStringPretty : Value → String
  helpResult : Value → (String → Bool) → Except String Value

variable {σ : Type} (floats : Floats) (serde : SerdeJson) (server : ChoreoMcpServer σ)

/-- What a tool gives back, and what the backend remembers after it. -/
def ChoreoMcpServer.outcome (name : String) (arguments : Value) (s : σ) :
    Except String Value × σ :=
  if name = discoverCapabilitiesTool then
    ((discoveryResult server.texts server.backend.supportsTool server.identity
      server.backend.backendName server.backend.grpcTlsModeName arguments).map
      (toolSuccessResult server.toStringPretty), s)
  else if name = getHelpTool then
    ((server.helpResult arguments server.backend.supportsTool).map
      (toolSuccessResult server.toStringPretty), s)
  else server.backend.callTool name arguments s

def toolResult : Except String Value → Value
  | .ok result => result
  | .error message => toolErrorResult message

def handleToolCall (id : Value) (params : Option Value) (s : σ) : String × σ :=
  match params.bind Value.asObject with
  | none => (jsonrpcError floats id invalidParamsCode "tools/call requires object params", s)
  | some params =>
    match getStr (.object params) "name" with
    | none => (jsonrpcError floats id invalidParamsCode "tools/call requires params.name", s)
    | some name =>
      let outcome := server.outcome name ((get (.object params) "arguments").getD .null) s
      (jsonrpcResult floats id (toolResult outcome.1), outcome.2)

/-- Handle one line. A notification is owed no response. -/
def handleJsonLine (line : String) (s : σ) : Option String × σ :=
  match serde.fromStr line with
  | .error error =>
    (some (jsonrpcError floats .null parseErrorCode ("invalid JSON-RPC message: " ++ error)), s)
  | .ok request =>
    let id := get request "id"
    match getStr request "method" with
    | some "initialize" =>
      (id.map fun id => jsonrpcResult floats id (initializeResult server.identity
        server.backend.backendName server.backend.grpcTlsModeName), s)
    | some "notifications/initialized" => (none, s)
    | some "tools/list" =>
      (id.map fun id => jsonrpcResult floats id
        (toolsListResult server.texts server.backend.supportsTool), s)
    | some "tools/call" =>
      match id with
      | some id =>
        let handled := handleToolCall floats server id (get request "params") s
        (some handled.1, handled.2)
      | none => (none, s)
    | some other =>
      (id.map fun id => jsonrpcError floats id methodNotFoundCode
        ("unsupported JSON-RPC method `" ++ other ++ "`"), s)
    | none => (some (jsonrpcError floats .null invalidRequestCode "missing JSON-RPC method"), s)

/-- The responses to some lines, one line at a time, and what the backend remembers
after them. -/
def serve : List String → σ → List String × σ
  | [], s => ([], s)
  | line :: rest, s =>
    if trim line = "" then serve rest s
    else
      let handled := handleJsonLine floats serde server line s
      let served := serve rest handled.2
      (handled.1.toList ++ served.1, served.2)

end Server

section Input

def carriageReturn : Byte := 13

def chomp (line : List Byte) : List Byte :=
  if line.getLast? = some carriageReturn then line.dropLast else line

def readLines : List Byte → List Byte → List (List Byte)
  | line, [] => if line = [] then [] else [line]
  | line, b :: bytes =>
    if b = newline then chomp line :: readLines [] bytes else readLines (line ++ [b]) bytes

/-- The lines up to the first that is no text: there the server stops. -/
def texts : List (List Byte) → List String
  | [] => []
  | line :: rest =>
    match decode line with
    | none => []
    | some text => text :: texts rest

variable {σ : Type} (floats : Floats) (serde : SerdeJson) (server : ChoreoMcpServer σ)

def main (input : List Byte) (s : σ) : List Byte × σ :=
  let served := serve floats serde server (texts (readLines [] input)) s
  (lines newline (served.1.map utf8), served.2)

end Input

section Replies

variable {σ : Type} {floats : Floats} {serde : SerdeJson} {server : ChoreoMcpServer σ}

/-- The id under which a line is owed a response, if it is owed one. -/
def idOwed (serde : SerdeJson) (line : String) : Option Value :=
  if trim line = "" then none
  else
    match serde.fromStr line with
    | .error _ => some .null
    | .ok request =>
      match getStr request "method" with
      | none => some .null
      | some method => if method = "notifications/initialized" then none else get request "id"

def toolCall (serde : SerdeJson) (line : String) : Option (String × Value) :=
  if trim line = "" then none
  else do
    let request ← (serde.fromStr line).toOption
    let _ ← get request "id"
    let params ← (get request "params").bind Value.asObject
    let name ← getStr (.object params) "name"
    if getStr request "method" = some "tools/call" then
      some (name, (get (.object params) "arguments").getD .null)
    else none

def backendCall (serde : SerdeJson) (line : String) : Option (String × Value) :=
  (toolCall serde line).filter fun call => !isServerTool call.1

def asks (serde : SerdeJson) (line : String) : Bool :=
  (toolCall serde line).isSome || (serde.fromStr line).toOption.any fun request =>
    getStr request "method" = some "initialize" || getStr request "method" = some "tools/list"

/-- What a response to a line is: it bears the id owed, and it is a result if the line
asks for something the server has, and an error if not. -/
structure Reply (serde : SerdeJson) (line : String) (message : Value) : Prop where
  version : getStr message "jsonrpc" = some "2.0"
  id : get message "id" = idOwed serde line
  result : (get message "result").isSome = asks serde line
  error : (get message "error").isSome = !asks serde line

theorem get_resultMessage (id result : Value) :
    getStr (resultMessage id result) "jsonrpc" = some "2.0" ∧
      get (resultMessage id result) "id" = some id ∧
      get (resultMessage id result) "result" = some result ∧
      get (resultMessage id result) "error" = none := by
  simp [resultMessage, getStr, get_json, OrdMap.ofList, OrdMap.get?_insert, Value.asStr]

theorem get_errorMessage (id : Value) (code : Number) (message : String) :
    getStr (errorMessage id code message) "jsonrpc" = some "2.0" ∧
      get (errorMessage id code message) "id" = some id ∧
      get (errorMessage id code message) "result" = none ∧
      (get (errorMessage id code message) "error").isSome = true := by
  simp [errorMessage, getStr, get_json, OrdMap.ofList, OrdMap.get?_insert, Value.asStr]

theorem reply_result {line : String} {id : Value} (result : Value)
    (howed : idOwed serde line = some id) (hasks : asks serde line = true) :
    Reply serde line (resultMessage id result) := by
  obtain ⟨hversion, hid, hresult, herror⟩ := get_resultMessage id result
  exact ⟨hversion, by rw [hid, howed], by rw [hresult, hasks]; rfl, by rw [herror, hasks]; rfl⟩

theorem reply_error {line : String} {id : Value} (code : Number) (message : String)
    (howed : idOwed serde line = some id) (hasks : asks serde line = false) :
    Reply serde line (errorMessage id code message) := by
  obtain ⟨hversion, hid, hresult, herror⟩ := get_errorMessage id code message
  exact ⟨hversion, by rw [hid, howed], by rw [hresult, hasks]; rfl, by rw [herror, hasks]; rfl⟩

def afterCalls (backend : ToolBackend σ) (s : σ) (calls : List (String × Value)) : σ :=
  calls.foldl (fun s call => (backend.callTool call.1 call.2 s).2) s

/-- What handling a line comes to: a response if one is owed, and of the calls the
backend is for, this line's if it is one. -/
structure Handled (serde : SerdeJson) (server : ChoreoMcpServer σ) (line : String) (s : σ)
    (response : Option Value) (s' : σ) : Prop where
  owed : response.isSome = (idOwed serde line).isSome
  reply : ∀ message, response = some message → Reply serde line message
  state : s' = afterCalls server.backend s (backendCall serde line).toList
  called : ∀ name arguments, toolCall serde line = some (name, arguments) →
    ∃ id, response = some (resultMessage id (toolResult (server.outcome name arguments s).1))

theorem handled_error {line : String} {id : Value} (s : σ) (code : Number) (message : String)
    (howed : idOwed serde line = some id) (hasks : asks serde line = false) :
    Handled serde server line s (some (errorMessage id code message)) s := by
  have hcall : toolCall serde line = none := by
    rw [asks, Bool.or_eq_false_iff, Option.isSome_eq_false_iff, Option.isNone_iff_eq_none] at hasks
    exact hasks.1
  refine ⟨by rw [howed]; rfl, ?_, by simp [backendCall, hcall, afterCalls], by simp [hcall]⟩
  rintro m ⟨⟩
  exact reply_error code message howed hasks

theorem handled_nothing {line : String} (s : σ) (howed : idOwed serde line = none)
    (hcall : toolCall serde line = none) : Handled serde server line s none s :=
  ⟨by rw [howed], by simp, by simp [backendCall, hcall, afterCalls], by simp [hcall]⟩

theorem handled_result {line : String} {id : Value} (s : σ) (result : Value)
    (howed : idOwed serde line = some id) (hasks : asks serde line = true)
    (hcall : toolCall serde line = none) :
    Handled serde server line s (some (resultMessage id result)) s := by
  refine ⟨by rw [howed]; rfl, ?_, by simp [backendCall, hcall, afterCalls], by simp [hcall]⟩
  rintro m ⟨⟩
  exact reply_result result howed hasks

theorem outcome_backend (server : ChoreoMcpServer σ) {name : String} {arguments : Value} {s : σ}
    (h : isServerTool name = false) :
    server.outcome name arguments s = server.backend.callTool name arguments s := by
  have hnot : name ≠ discoverCapabilitiesTool ∧ name ≠ getHelpTool := by
    simpa [isServerTool, serverToolNames] using h
  rw [ChoreoMcpServer.outcome, if_neg hnot.1, if_neg hnot.2]

theorem outcome_state (server : ChoreoMcpServer σ) (name : String) (arguments : Value) (s : σ) :
    (server.outcome name arguments s).2 = if isServerTool name then s
      else (server.backend.callTool name arguments s).2 := by
  cases hserver : isServerTool name with
  | false => rw [outcome_backend server hserver, if_neg (by simp)]
  | true =>
    have hname : name = discoverCapabilitiesTool ∨ name = getHelpTool := by
      simpa [isServerTool, serverToolNames] using hserver
    rw [if_pos rfl, ChoreoMcpServer.outcome]
    split_ifs with hdiscover hhelp
    · rfl
    · rfl
    · exact absurd hname (by simp [hdiscover, hhelp])

theorem handled_call {line name : String} {id arguments : Value} (s : σ)
    (howed : idOwed serde line = some id) (hcall : toolCall serde line = some (name, arguments)) :
    Handled serde server line s
      (some (resultMessage id (toolResult (server.outcome name arguments s).1)))
      (server.outcome name arguments s).2 := by
  refine ⟨by rw [howed]; rfl, ?_, ?_, ?_⟩
  · rintro m ⟨⟩
    exact reply_result _ howed (by simp [asks, hcall])
  · rw [outcome_state, backendCall, hcall]
    cases hserver : isServerTool name with
    | true => simp [Option.filter, hserver, afterCalls]
    | false => simp [Option.filter, hserver, afterCalls]
  · intro name' arguments' hcall'
    obtain ⟨rfl, rfl⟩ := Prod.mk.inj (Option.some.inj (hcall.symm.trans hcall'))
    exact ⟨id, rfl⟩

section Lines

variable {line : String} {request : Value}

theorem idOwed_of_method {method : String} (hblank : trim line ≠ "")
    (hread : serde.fromStr line = .ok request) (hmethod : getStr request "method" = some method)
    (hnote : method ≠ "notifications/initialized") : idOwed serde line = get request "id" := by
  simp [idOwed, hblank, hread, hmethod, hnote]

theorem toolCall_of_method {method : Option String} (hblank : trim line ≠ "")
    (hread : serde.fromStr line = .ok request) (hmethod : getStr request "method" = method)
    (hcall : method ≠ some "tools/call") : toolCall serde line = none := by
  simp [toolCall, hblank, hread, hmethod, hcall, Except.toOption]

theorem asks_of_method {method : Option String} (hblank : trim line ≠ "")
    (hread : serde.fromStr line = .ok request) (hmethod : getStr request "method" = method)
    (hcall : method ≠ some "tools/call") :
    asks serde line = (method = some "initialize" || method = some "tools/list") := by
  simp [asks, toolCall_of_method hblank hread hmethod hcall, hread, hmethod, Except.toOption]

theorem handled_own {method : String} (s : σ) (respond : Value → Value) (hblank : trim line ≠ "")
    (hread : serde.fromStr line = .ok request) (hmethod : getStr request "method" = some method)
    (hnote : method ≠ "notifications/initialized") (hcall : method ≠ "tools/call")
    (hrespond : ∀ id, idOwed serde line = some id →
      Handled serde server line s (some (respond id)) s) :
    Handled serde server line s ((get request "id").map respond) s := by
  have howed := idOwed_of_method hblank hread hmethod hnote
  cases hid : get request "id" with
  | none =>
    exact handled_nothing s (howed.trans hid)
      (toolCall_of_method hblank hread hmethod (by simpa using hcall))
  | some id => exact hrespond id (howed.trans hid)

theorem handleToolCall_handled {id : Value} (floats : Floats) (server : ChoreoMcpServer σ) (s : σ)
    (hblank : trim line ≠ "")
    (hread : serde.fromStr line = .ok request) (hmethod : getStr request "method" = some "tools/call")
    (hid : get request "id" = some id) :
    ∃ response, (handleToolCall floats server id (get request "params") s).1 =
        toText floats response ∧
      Handled serde server line s (some response)
        (handleToolCall floats server id (get request "params") s).2 := by
  have howed : idOwed serde line = some id :=
    (idOwed_of_method hblank hread hmethod (by decide)).trans hid
  unfold handleToolCall
  cases hparams : (get request "params").bind Value.asObject with
  | none =>
    refine ⟨_, rfl, handled_error s _ _ howed ?_⟩
    simp [asks, toolCall, hblank, hread, hmethod, hid, hparams, Except.toOption]
  | some params =>
    cases hname : getStr (.object params) "name" with
    | none =>
      simp only [hname]
      refine ⟨_, rfl, handled_error s _ _ howed ?_⟩
      simp [asks, toolCall, hblank, hread, hmethod, hid, hparams, hname, Except.toOption]
    | some name =>
      simp only [hname]
      refine ⟨_, rfl, handled_call s howed ?_⟩
      simp [toolCall, hblank, hread, hmethod, hid, hparams, hname, Except.toOption]

theorem handleJsonLine_handled (floats : Floats) (server : ChoreoMcpServer σ) (s : σ)
    (hblank : trim line ≠ "") :
    ∃ response, (handleJsonLine floats serde server line s).1 = response.map (toText floats) ∧
      Handled serde server line s response (handleJsonLine floats serde server line s).2 := by
  unfold handleJsonLine
  cases hread : serde.fromStr line with
  | error error =>
    refine ⟨some _, rfl, handled_error s _ _ ?_ ?_⟩
    · simp [idOwed, hblank, hread]
    · simp [asks, toolCall, hread, Except.toOption]
  | ok request =>
    simp only
    split
    · next hmethod =>
      refine ⟨_, by rw [Option.map_map]; rfl,
        handled_own s (fun id => resultMessage id _) hblank hread hmethod (by decide) (by decide) ?_⟩
      intro id howed
      refine handled_result s _ howed ?_ (toolCall_of_method hblank hread hmethod (by decide))
      simp [asks_of_method hblank hread hmethod (by decide)]
    · next hmethod =>
      refine ⟨none, rfl, handled_nothing s ?_ (toolCall_of_method hblank hread hmethod (by decide))⟩
      simp [idOwed, hblank, hread, hmethod]
    · next hmethod =>
      refine ⟨_, by rw [Option.map_map]; rfl,
        handled_own s (fun id => resultMessage id _) hblank hread hmethod (by decide) (by decide) ?_⟩
      intro id howed
      refine handled_result s _ howed ?_ (toolCall_of_method hblank hread hmethod (by decide))
      simp [asks_of_method hblank hread hmethod (by decide)]
    · next hmethod =>
      cases hid : get request "id" with
      | none =>
        refine ⟨none, rfl, handled_nothing s ?_ ?_⟩
        · rw [idOwed_of_method hblank hread hmethod (by decide), hid]
        · simp [toolCall, hblank, hread, hid, Except.toOption]
      | some id =>
        obtain ⟨response, htext, hhandled⟩ :=
          handleToolCall_handled floats server s hblank hread hmethod hid
        exact ⟨some response, by simp [htext], hhandled⟩
    · next other hinit hnote hlist hcall hmethod =>
      have hcalled : some other ≠ some "tools/call" := by simpa using hcall
      refine ⟨_, by rw [Option.map_map]; rfl,
        handled_own s (fun id => errorMessage id _ _) hblank hread hmethod hnote hcall ?_⟩
      intro id howed
      refine handled_error s _ _ howed ?_
      rw [asks_of_method hblank hread hmethod hcalled]
      simpa using ⟨hinit, hlist⟩
    · next hmethod =>
      refine ⟨some _, rfl, handled_error s _ _ ?_ ?_⟩
      · simp [idOwed, hblank, hread, hmethod]
      · rw [asks_of_method hblank hread hmethod (by decide)]
        decide

end Lines

def owed (serde : SerdeJson) (line : String) : Bool := (idOwed serde line).isSome

/-- What comes of some lines: a response to each that is owed one, in order, with the
calls among them run on the backend in order, and each call answered with what came of
it there. -/
structure Served (serde : SerdeJson) (server : ChoreoMcpServer σ) (inputs : List String) (s : σ)
    (replies : List Value) (s' : σ) : Prop where
  inOrder : List.Forall₂ (Reply serde) (inputs.filter (owed serde)) replies
  state : s' = afterCalls server.backend s (inputs.filterMap (backendCall serde))
  called : ∀ before line after name arguments, inputs = before ++ line :: after →
    toolCall serde line = some (name, arguments) →
    ∃ id, replies[(before.filter (owed serde)).length]? = some (resultMessage id (toolResult
      (server.outcome name arguments
        (afterCalls server.backend s (before.filterMap (backendCall serde)))).1))

theorem served_nil (s : σ) : Served serde server [] s [] s :=
  ⟨List.Forall₂.nil, rfl, by simp⟩

theorem served_blank {line : String} {inputs : List String} {s s' : σ} {replies : List Value}
    (hblank : trim line = "") (h : Served serde server inputs s replies s') :
    Served serde server (line :: inputs) s replies s' := by
  have howed : owed serde line = false := by simp [owed, idOwed, hblank]
  have hcall : toolCall serde line = none := by simp [toolCall, hblank]
  have hbackend : backendCall serde line = none := by simp [backendCall, hcall]
  refine ⟨by simpa [howed] using h.inOrder, by simpa [hbackend] using h.state, ?_⟩
  intro before line' later name arguments hsplit hline'
  obtain ⟨rfl, ⟨rfl, rfl⟩⟩ | ⟨front, rfl, rfl⟩ := List.cons_eq_append_iff.mp hsplit
  · simp [hcall] at hline'
  · simpa [howed, hbackend] using h.called front line' later name arguments rfl hline'

theorem afterCalls_append (backend : ToolBackend σ) (s : σ) (calls calls' : List (String × Value)) :
    afterCalls backend s (calls ++ calls') = afterCalls backend (afterCalls backend s calls) calls' :=
  List.foldl_append

theorem served_cons {line : String} {inputs : List String} {s s₁ s' : σ} {response : Option Value}
    {replies : List Value} (hline : Handled serde server line s response s₁)
    (h : Served serde server inputs s₁ replies s') :
    Served serde server (line :: inputs) s (response.toList ++ replies) s' := by
  have hcalls (calls : List String) : afterCalls server.backend s
      ((line :: calls).filterMap (backendCall serde)) =
        afterCalls server.backend s₁ (calls.filterMap (backendCall serde)) := by
    rw [hline.state, ← afterCalls_append]
    cases hbackend : backendCall serde line <;> simp [hbackend]
  have howed : owed serde line = response.isSome := hline.owed.symm
  refine ⟨?_, by rw [hcalls]; exact h.state, ?_⟩
  · cases response with
    | none => simpa [howed] using h.inOrder
    | some message => simpa [howed] using ⟨hline.reply message rfl, h.inOrder⟩
  · intro before line' later name arguments hsplit hline'
    obtain ⟨rfl, ⟨rfl, rfl⟩⟩ | ⟨front, rfl, rfl⟩ := List.cons_eq_append_iff.mp hsplit
    · obtain ⟨id, rfl⟩ := hline.called name arguments hline'
      exact ⟨id, by simp [afterCalls]⟩
    · obtain ⟨id, hreply⟩ := h.called front line' later name arguments rfl hline'
      refine ⟨id, ?_⟩
      rw [hcalls, ← hreply]
      cases response with
      | none => simp [howed]
      | some message => simp [howed]

theorem serve_served (floats : Floats) (serde : SerdeJson) (server : ChoreoMcpServer σ)
    (inputs : List String) (s : σ) :
    ∃ replies, (serve floats serde server inputs s).1 = replies.map (toText floats) ∧
      Served serde server inputs s replies (serve floats serde server inputs s).2 := by
  induction inputs generalizing s with
  | nil => exact ⟨[], rfl, served_nil s⟩
  | cons line inputs ih =>
    by_cases hblank : trim line = ""
    · obtain ⟨replies, htexts, hserved⟩ := ih s
      simp only [serve, if_pos hblank]
      exact ⟨replies, htexts, served_blank hblank hserved⟩
    · obtain ⟨response, htext, hhandled⟩ := handleJsonLine_handled floats server s hblank
      obtain ⟨replies, htexts, hserved⟩ := ih (handleJsonLine floats serde server line s).2
      simp only [serve, if_neg hblank]
      refine ⟨response.toList ++ replies, ?_, served_cons hhandled hserved⟩
      rw [htext, htexts, List.map_append]
      cases response <;> rfl

end Replies

section Framing

theorem readLines_line (held : List Byte) {line : List Byte} (rest : List Byte)
    (hline : newline ∉ line) :
    readLines held (line ++ newline :: rest) = chomp (held ++ line) :: readLines [] rest := by
  induction line generalizing held with
  | nil => simp [readLines]
  | cons b line ih =>
    have hb : b ≠ newline := fun hb => hline (hb ▸ List.mem_cons_self)
    rw [List.cons_append, readLines, if_neg hb, ih _ fun hm => hline (List.mem_cons_of_mem _ hm)]
    simp

theorem readLines_lines {ls : List (List Byte)}
    (h : ∀ l ∈ ls, newline ∉ l ∧ carriageReturn ∉ l) : readLines [] (lines newline ls) = ls := by
  induction ls with
  | nil => rfl
  | cons l ls ih =>
    obtain ⟨hnewline, hreturn⟩ := h l List.mem_cons_self
    have hchomp : chomp l = l := if_neg fun hlast => hreturn (List.mem_of_getLast? hlast)
    rw [lines_cons, readLines_line _ _ hnewline, ih fun l' hl' => h l' (List.mem_cons_of_mem _ hl'),
      List.nil_append, hchomp]

theorem utf8_toText_unbroken (floats : Floats) (message : Value) :
    newline ∉ utf8 (toText floats message) ∧ carriageReturn ∉ utf8 (toText floats message) := by
  have hplain : ∀ b : Byte, b.val < 32 → b ∉ utf8 (toText floats message) := by
    intro b hb
    apply byte_notMem_utf8 (by omega)
    intro c hc hcb
    rw [toText, String.toList_ofList] at hc
    exact write_printable floats message c hc (by omega)
  exact ⟨hplain newline (by decide), hplain carriageReturn (by decide)⟩

variable {σ : Type}

theorem main_served (floats : Floats) (serde : SerdeJson) (server : ChoreoMcpServer σ)
    (input : List Byte) (s : σ) :
    ∃ replies : List Value,
      readLines [] (main floats serde server input s).1 =
        replies.map (fun message => utf8 (toText floats message)) ∧
      Served serde server (texts (readLines [] input)) s replies
        (main floats serde server input s).2 := by
  obtain ⟨replies, htexts, hserved⟩ :=
    serve_served floats serde server (texts (readLines [] input)) s
  refine ⟨replies, ?_, hserved⟩
  simp only [main, htexts, List.map_map]
  apply readLines_lines
  intro l hl
  obtain ⟨message, -, rfl⟩ := List.mem_map.mp hl
  exact utf8_toText_unbroken floats message

/-- Whatever is written to the server and whatever its backend does, what it writes back
reads, line by line, as one reply to each line that is owed one, in the order of the
lines. The backend runs the tools called on it, in order and once each, and each call is
answered with what came of it there. -/
theorem main_replies (floats : Floats) (serde : SerdeJson) (server : ChoreoMcpServer σ)
    (input : List Byte) (s : σ) :
    let inputs := texts (readLines [] input)
    ∃ replies : List Value,
      readLines [] (main floats serde server input s).1 =
        replies.map (fun message => utf8 (toText floats message)) ∧
      List.Forall₂ (Reply serde) (inputs.filter (owed serde)) replies ∧
      (main floats serde server input s).2 =
        afterCalls server.backend s (inputs.filterMap (backendCall serde)) ∧
      ∀ before line later name arguments, inputs = before ++ line :: later →
        toolCall serde line = some (name, arguments) →
        ∃ id, replies[(before.filter (owed serde)).length]? = some (resultMessage id (toolResult
          (server.outcome name arguments
            (afterCalls server.backend s (before.filterMap (backendCall serde)))).1)) := by
  obtain ⟨replies, hread, hserved⟩ := main_served floats serde server input s
  exact ⟨replies, hread, hserved.inOrder, hserved.state, hserved.called⟩

end Framing

section Embedded

inductive EmbeddedTool
  | designCeremony
  | validateCeremonyDraft
  | explainCeremonyDraft
  | bindCeremonyParticipants
  | diffCeremonyDefinitions
  | publishCeremonyDefinition
  | startPublishedCeremony
  | runCeremony
  | startCeremony
  | runCeremonyStep
  | claimCeremonyStep
  | completeCeremonyStep
  | approveCeremonyGuard
  | assertCeremonyReason
  | deferCeremonyGuard
  | applyCeremonyTransition
  | getCeremonyInstance
  | generateCeremonyReport
  | listCeremonyInstances
  | requestCeremonyIntervention
  | respondToCeremonyIntervention
  | closeCeremonyIntervention
  | collectCeremonyEvidence
deriving DecidableEq

def embeddedArms : List (String × EmbeddedTool) :=
  [(designCeremonyTool, .designCeremony), (validateCeremonyDraftTool, .validateCeremonyDraft),
    (explainCeremonyDraftTool, .explainCeremonyDraft),
    (bindCeremonyParticipantsTool, .bindCeremonyParticipants),
    (diffCeremonyDefinitionsTool, .diffCeremonyDefinitions),
    (publishCeremonyDefinitionTool, .publishCeremonyDefinition),
    (startPublishedCeremonyTool, .startPublishedCeremony), (runCeremonyTool, .runCeremony),
    (startCeremonyTool, .startCeremony), (runCeremonyStepTool, .runCeremonyStep),
    (claimCeremonyStepTool, .claimCeremonyStep), (completeCeremonyStepTool, .completeCeremonyStep),
    (approveCeremonyGuardTool, .approveCeremonyGuard),
    (assertCeremonyReasonTool, .assertCeremonyReason),
    (deferCeremonyGuardTool, .deferCeremonyGuard),
    (applyCeremonyTransitionTool, .applyCeremonyTransition),
    (getCeremonyInstanceTool, .getCeremonyInstance),
    (generateCeremonyReportTool, .generateCeremonyReport),
    (listCeremonyInstancesTool, .listCeremonyInstances),
    (requestCeremonyInterventionTool, .requestCeremonyIntervention),
    (respondToCeremonyInterventionTool, .respondToCeremonyIntervention),
    (closeCeremonyInterventionTool, .closeCeremonyIntervention),
    (collectCeremonyEvidenceTool, .collectCeremonyEvidence)]

def embeddedArm (name : String) : Option EmbeddedTool := embeddedArms.lookup name

def embeddedSupportsTool (name : String) : Bool :=
  [runCeremonyTool, startCeremonyTool, runCeremonyStepTool, claimCeremonyStepTool,
    completeCeremonyStepTool, approveCeremonyGuardTool, deferCeremonyGuardTool,
    applyCeremonyTransitionTool, getCeremonyInstanceTool, listCeremonyInstancesTool,
    requestCeremonyInterventionTool, respondToCeremonyInterventionTool,
    closeCeremonyInterventionTool, collectCeremonyEvidenceTool, assertCeremonyReasonTool,
    designCeremonyTool, validateCeremonyDraftTool, explainCeremonyDraftTool,
    publishCeremonyDefinitionTool, startPublishedCeremonyTool, diffCeremonyDefinitionsTool,
    bindCeremonyParticipantsTool, generateCeremonyReportTool].contains name

variable {σ : Type}

def unsupportedTool (name : String) : String :=
  "embedded backend: unsupported tool `" ++ name ++ "`"

/-- The backend that runs ceremonies in the process of the server, over what it does for
each of its tools. -/
def embeddedBackend (handle : EmbeddedTool → Value → σ → Except String Value × σ) :
    ToolBackend σ where
  backendName := "embedded"
  grpcTlsModeName := "disabled"
  supportsTool := embeddedSupportsTool
  callTool name arguments s :=
    match embeddedArm name with
    | some tool => handle tool arguments s
    | none => (.error (unsupportedTool name), s)

def listedNames (server : ChoreoMcpServer σ) : List (Option String) :=
  (getItems (toolsListResult server.texts server.backend.supportsTool) "tools").map (getStr · "name")

theorem mem_listedNames {server : ChoreoMcpServer σ} {name : String} :
    some name ∈ listedNames server ↔ name ∈ availableNames server.backend.supportsTool := by
  rw [listedNames, getItems_toolsListResult, List.map_map]
  simp [getStr_toolDef]

theorem embeddedArm_isSome (name : String) :
    (embeddedArm name).isSome = true ↔ name ∈ embeddedArms.map Prod.fst := by
  rw [embeddedArm, List.lookup_isSome_iff]
  constructor
  · rintro ⟨p, hp, hname⟩
    exact List.mem_map.mpr ⟨p, hp, (eq_of_beq hname).symm⟩
  · intro h
    obtain ⟨p, hp, rfl⟩ := List.mem_map.mp h
    exact ⟨p, hp, by simp⟩

theorem embedded_listed (name : String) :
    name ∈ availableNames embeddedSupportsTool ↔
      isServerTool name = true ∨ (embeddedArm name).isSome = true := by
  have hsame : (availableNames embeddedSupportsTool).Perm
      (serverToolNames ++ embeddedArms.map Prod.fst) := by decide +kernel
  rw [hsame.mem_iff, List.mem_append, embeddedArm_isSome, isServerTool, List.contains_iff_mem]

def embeddedServer (handle : EmbeddedTool → Value → σ → Except String Value × σ)
    (identity : McpServerIdentity) (texts : ToolTexts) (toStringPretty : Value → String)
    (helpResult : Value → (String → Bool) → Except String Value) : ChoreoMcpServer σ :=
  ⟨embeddedBackend handle, identity, texts, toStringPretty, helpResult⟩

def handlerCall (serde : SerdeJson) (line : String) : Option (EmbeddedTool × Value) :=
  (toolCall serde line).bind fun call => (embeddedArm call.1).map fun tool => (tool, call.2)

variable {serde : SerdeJson} {handle : EmbeddedTool → Value → σ → Except String Value × σ}

theorem embeddedArm_serverTool : ∀ name ∈ serverToolNames, embeddedArm name = none := by
  decide +kernel

theorem handlerCall_eq (serde : SerdeJson) (line : String) :
    handlerCall serde line = (backendCall serde line).bind fun call =>
      (embeddedArm call.1).map fun tool => (tool, call.2) := by
  rw [handlerCall, backendCall]
  cases toolCall serde line with
  | none => rfl
  | some call =>
    cases hserver : isServerTool call.1 with
    | false => simp [Option.filter, hserver]
    | true =>
      have hnone := embeddedArm_serverTool call.1 (List.contains_iff_mem.mp hserver)
      simp [Option.filter, hserver, hnone]

theorem afterCalls_embedded (inputs : List String) (s : σ) :
    afterCalls (embeddedBackend handle) s (inputs.filterMap (backendCall serde)) =
      (inputs.filterMap (handlerCall serde)).foldl (fun s call => (handle call.1 call.2 s).2) s := by
  induction inputs generalizing s with
  | nil => rfl
  | cons line inputs ih =>
    rw [List.filterMap_cons, List.filterMap_cons, handlerCall_eq]
    cases backendCall serde line with
    | none => exact ih s
    | some call =>
      cases harm : embeddedArm call.1 with
      | none =>
        have hcall : ((embeddedBackend handle).callTool call.1 call.2 s).2 = s := by
          simp [embeddedBackend, harm]
        simpa [afterCalls, harm, hcall] using ih s
      | some tool =>
        have hcall : ((embeddedBackend handle).callTool call.1 call.2 s).2 =
            (handle tool call.2 s).2 := by
          simp [embeddedBackend, harm]
        simpa [afterCalls, harm, hcall] using ih (handle tool call.2 s).2

/-- The embedded server runs the tools it lists, and no others: in every run the handlers
run in the order of the calls that name a listed tool, and a call of a tool that is not
listed is answered by a refusal that names it and changes nothing. -/
theorem embedded_runs_listed (floats : Floats) (serde : SerdeJson)
    (handle : EmbeddedTool → Value → σ → Except String Value × σ) (identity : McpServerIdentity)
    (toolTexts : ToolTexts) (toStringPretty : Value → String)
    (helpResult : Value → (String → Bool) → Except String Value) (input : List Byte) (s : σ) :
    let server := embeddedServer handle identity toolTexts toStringPretty helpResult
    let inputs := texts (readLines [] input)
    (∀ name, some name ∈ listedNames server ↔
      isServerTool name = true ∨ ∃ tool, embeddedArm name = some tool) ∧
    (main floats serde server input s).2 =
      (inputs.filterMap (handlerCall serde)).foldl (fun s call => (handle call.1 call.2 s).2) s ∧
    ∃ replies : List Value,
      readLines [] (main floats serde server input s).1 =
        replies.map (fun message => utf8 (toText floats message)) ∧
      ∀ before line later name arguments, inputs = before ++ line :: later →
        toolCall serde line = some (name, arguments) → some name ∉ listedNames server →
        ∃ id, replies[(before.filter (owed serde)).length]? =
          some (resultMessage id (toolErrorResult (unsupportedTool name))) := by
  intro server inputs
  have hlisted : ∀ name, some name ∈ listedNames server ↔
      isServerTool name = true ∨ ∃ tool, embeddedArm name = some tool := by
    intro name
    rw [mem_listedNames, ← Option.isSome_iff_exists]
    exact embedded_listed name
  obtain ⟨replies, hread, hserved⟩ := main_served floats serde server input s
  refine ⟨hlisted, ?_, replies, hread, ?_⟩
  · rw [hserved.state]
    exact afterCalls_embedded inputs s
  · intro before line later name arguments hsplit hcall hunlisted
    obtain ⟨id, hreply⟩ := hserved.called before line later name arguments hsplit hcall
    have hnone : isServerTool name = false ∧ embeddedArm name = none := by
      rw [hlisted, not_or, Bool.not_eq_true, ← Option.isSome_iff_exists, Bool.not_eq_true,
        Option.isSome_eq_false_iff, Option.isNone_iff_eq_none] at hunlisted
      exact hunlisted
    refine ⟨id, hreply.trans ?_⟩
    rw [outcome_backend server hnone.1]
    simp [server, embeddedServer, embeddedBackend, hnone.2, toolResult]

end Embedded

end Choreographer.ToolServer
