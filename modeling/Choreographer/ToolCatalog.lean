import Choreographer.JsonFrames
import Choreographer.KernelPages

namespace Choreographer.ToolCatalog

open Choreographer.Lib.SortedMaps
open Choreographer.Values Choreographer.EvidenceGates Choreographer.KernelPages
open Choreographer.JsonFrames

section Names

def runCeremonyTool : String := "choreo_run_ceremony"
def startCeremonyTool : String := "choreo_start_ceremony"
def runCeremonyStepTool : String := "choreo_run_ceremony_step"
def claimCeremonyStepTool : String := "choreo_claim_ceremony_step"
def completeCeremonyStepTool : String := "choreo_complete_ceremony_step"
def approveCeremonyGuardTool : String := "choreo_approve_ceremony_guard"
def deferCeremonyGuardTool : String := "choreo_defer_ceremony_guard"
def applyCeremonyTransitionTool : String := "choreo_apply_ceremony_transition"
def assertCeremonyReasonTool : String := "choreo_assert_ceremony_reason"
def getCeremonyInstanceTool : String := "choreo_get_ceremony_instance"
def listCeremonyInstancesTool : String := "choreo_list_ceremony_instances"
def requestCeremonyInterventionTool : String := "choreo_request_ceremony_intervention"
def respondToCeremonyInterventionTool : String := "choreo_respond_to_ceremony_intervention"
def closeCeremonyInterventionTool : String := "choreo_close_ceremony_intervention"
def collectCeremonyEvidenceTool : String := "choreo_collect_ceremony_evidence"
def designCeremonyTool : String := "choreo_design_ceremony"
def generateCeremonyReportTool : String := "choreo_generate_ceremony_report"
def discoverCapabilitiesTool : String := "choreo_discover_capabilities"
def getHelpTool : String := "choreo_get_help"
def validateCeremonyDraftTool : String := "choreo_validate_ceremony_draft"
def explainCeremonyDraftTool : String := "choreo_explain_ceremony_draft"
def publishCeremonyDefinitionTool : String := "choreo_publish_ceremony_definition"
def diffCeremonyDefinitionsTool : String := "choreo_diff_ceremony_definitions"
def bindCeremonyParticipantsTool : String := "choreo_bind_ceremony_participants"
def startPublishedCeremonyTool : String := "choreo_start_published_ceremony"

def grpcToolNames : List String :=
  ["choreo_deliberate", "choreo_stream_deliberation", "choreo_get_deliberation_result",
    "choreo_orchestrate", "choreo_create_council", "choreo_list_councils", "choreo_delete_council",
    "choreo_register_agent", "choreo_unregister_agent", "choreo_process_trigger_event",
    "choreo_run_council_decision", "choreo_register_contract", "choreo_list_contracts",
    "choreo_delete_contract", runCeremonyTool, getCeremonyInstanceTool, listCeremonyInstancesTool,
    startCeremonyTool, startPublishedCeremonyTool, runCeremonyStepTool,
    applyCeremonyTransitionTool, approveCeremonyGuardTool, deferCeremonyGuardTool,
    requestCeremonyInterventionTool, respondToCeremonyInterventionTool,
    closeCeremonyInterventionTool, collectCeremonyEvidenceTool, assertCeremonyReasonTool,
    validateCeremonyDraftTool, explainCeremonyDraftTool, publishCeremonyDefinitionTool,
    diffCeremonyDefinitionsTool, bindCeremonyParticipantsTool, "choreo_get_status",
    "choreo_get_metrics"]

def serverToolNames : List String := [discoverCapabilitiesTool, getHelpTool]

def isServerTool (name : String) : Bool := serverToolNames.contains name

/-- The names of the whole catalog: the tools the remote service has, then those only
some compositions have. -/
def toolNames : List String :=
  grpcToolNames ++ [designCeremonyTool, claimCeremonyStepTool, completeCeremonyStepTool,
    generateCeremonyReportTool, discoverCapabilitiesTool, getHelpTool]

end Names

section Catalog

/-- What the catalog says of each tool, apart from its name. -/
structure ToolTexts where
  description : String → String
  inputSchema : String → Value

variable (texts : ToolTexts) (supports : String → Bool)

def toolDef (name : String) : Value :=
  json [("name", .string name), ("description", .string (texts.description name)),
    ("inputSchema", texts.inputSchema name)]

def toolCatalog : List Value := toolNames.map (toolDef texts)

def availableToolCatalog : List Value :=
  (toolCatalog texts).filter fun tool =>
    (getStr tool "name").any fun name => isServerTool name || supports name

def toolsListResult : Value := json [("tools", .array (availableToolCatalog texts supports))]

def catalogNames (catalog : List Value) : OrdSet String :=
  OrdSet.ofList (catalog.filterMap fun tool => getStr tool "name")

structure CapabilityGroup where
  id : String
  description : String
  tools : List String

def capabilityGroupList : List CapabilityGroup :=
  [⟨"self_description", "Inspect the active server and obtain audience-specific help.",
      [discoverCapabilitiesTool, getHelpTool]⟩,
    ⟨"council_deliberation", "Run, inspect, trigger, and optionally execute council deliberations.",
      ["choreo_deliberate", "choreo_stream_deliberation", "choreo_get_deliberation_result",
        "choreo_orchestrate", "choreo_process_trigger_event", "choreo_run_council_decision"]⟩,
    ⟨"council_configuration", "Manage councils, agents, and output contracts.",
      ["choreo_create_council", "choreo_list_councils", "choreo_delete_council",
        "choreo_register_agent", "choreo_unregister_agent", "choreo_register_contract",
        "choreo_list_contracts", "choreo_delete_contract"]⟩,
    ⟨"ceremony_design", "Design, validate, explain, compare, and publish ceremony definitions.",
      [designCeremonyTool, validateCeremonyDraftTool, explainCeremonyDraftTool,
        publishCeremonyDefinitionTool, diffCeremonyDefinitionsTool]⟩,
    ⟨"ceremony_execution",
      "Run a ceremony in one shot or drive a persistent instance step by step.",
      [runCeremonyTool, startCeremonyTool, startPublishedCeremonyTool, runCeremonyStepTool,
        claimCeremonyStepTool, completeCeremonyStepTool, applyCeremonyTransitionTool]⟩,
    ⟨"ceremony_recovery", "Rediscover and inspect instances owned by the active backend.",
      [listCeremonyInstancesTool, getCeremonyInstanceTool]⟩,
    ⟨"human_authorization", "Record explicit guard decisions without inferring human authority.",
      [approveCeremonyGuardTool, deferCeremonyGuardTool]⟩,
    ⟨"ceremony_participation",
      "Seat participants, coordinate interventions, attach evidence, and record reasons.",
      [bindCeremonyParticipantsTool, requestCeremonyInterventionTool,
        respondToCeremonyInterventionTool, closeCeremonyInterventionTool,
        collectCeremonyEvidenceTool, assertCeremonyReasonTool]⟩,
    ⟨"service_observability", "Inspect service health and statistics.",
      ["choreo_get_status", "choreo_get_metrics"]⟩,
    ⟨"ceremony_reporting", "Project persisted ceremony state and journals into Markdown.",
      [generateCeremonyReportTool]⟩]

def CapabilityGroup.available (group : CapabilityGroup) (names : OrdSet String) : List String :=
  group.tools.filter (names.contains ·)

def toldGroup (names : OrdSet String) (group : CapabilityGroup) : Value :=
  json [("id", .string group.id), ("description", .string group.description),
    ("tools", .array ((group.available names).map .string))]

def capabilityGroups (names : OrdSet String) : List Value :=
  capabilityGroupList.filterMap fun group =>
    if group.available names = [] then none else some (toldGroup names group)

structure McpServerIdentity where
  name : String
  version : String

variable (identity : McpServerIdentity) (backend grpcTls : String)

def discoveredTool (tool : Value) : Value :=
  let name := (getStr tool "name").getD ""
  json [("name", .string name), ("description", (get tool "description").getD .null),
    ("input_schema", (get tool "inputSchema").getD .null),
    ("report_generator", .bool (name = generateCeremonyReportTool))]

def artifactGenerators (names : OrdSet String) : List Value :=
  if names.contains generateCeremonyReportTool then
    [json [("id", .string "ceremony_report_markdown"), ("tool", .string generateCeremonyReportTool),
      ("artifact_kind", .string "ceremony_report"), ("media_type", .string "text/markdown"),
      ("response_field", .string "structuredContent.report_markdown"),
      ("persisted_by_tool", .bool false), ("persistence_owner", .string "host")]]
  else []

def discoveryDocument : Value :=
  let catalog := availableToolCatalog texts supports
  let names := catalogNames catalog
  json [("schema_version", .string "1.0"),
    ("server", json [("name", .string identity.name), ("version", .string identity.version)]),
    ("backend", json [("name", .string backend), ("grpc_tls", .string grpcTls),
      ("state_durability", .string "backend_defined")]),
    ("tool_count", jsonNat catalog.length),
    ("capabilities", .array (capabilityGroups names)),
    ("artifact_generators", .array (artifactGenerators names)),
    ("help", json [("tool", .string getHelpTool),
      ("audiences", .array [.string "user", .string "agent"])]),
    ("tools", .array (catalog.map discoveredTool))]

def discoveryResult (arguments : Value) : Except String Value :=
  match arguments with
  | .null => .ok (discoveryDocument texts supports identity backend grpcTls)
  | .object [] => .ok (discoveryDocument texts supports identity backend grpcTls)
  | .object entries =>
    .error ("choreo_discover_capabilities accepts no fields, got: " ++
      ", ".intercalate (entries.map (·.1)))
  | _ => .error "choreo_discover_capabilities arguments must be an object"

end Catalog

section Listed

variable {texts : ToolTexts} {supports : String → Bool}

def availableNames (supports : String → Bool) : List String :=
  toolNames.filter fun name => isServerTool name || supports name

theorem getStr_toolDef (texts : ToolTexts) (name : String) :
    getStr (toolDef texts name) "name" = some name := by
  simp [toolDef, getStr, get_json, OrdMap.ofList, OrdMap.get?_insert, Value.asStr]

theorem availableToolCatalog_eq (texts : ToolTexts) (supports : String → Bool) :
    availableToolCatalog texts supports = (availableNames supports).map (toolDef texts) := by
  have hsame : ((fun tool => (getStr tool "name").any fun name => isServerTool name || supports name) ∘
      toolDef texts) = fun name => isServerTool name || supports name := by
    funext name
    simp [getStr_toolDef]
  rw [availableToolCatalog, toolCatalog, List.filter_map, hsame, availableNames]

theorem getItems_toolsListResult (texts : ToolTexts) (supports : String → Bool) :
    getItems (toolsListResult texts supports) "tools" =
      (availableNames supports).map (toolDef texts) := by
  rw [toolsListResult, availableToolCatalog_eq]
  simp [getItems, get_json, OrdMap.ofList, Value.asArray]

theorem catalogNames_contains (texts : ToolTexts) (supports : String → Bool) (name : String) :
    (catalogNames (availableToolCatalog texts supports)).contains name =
      decide (name ∈ availableNames supports) := by
  have hnames : ((availableNames supports).map (toolDef texts)).filterMap
      (fun tool => getStr tool "name") = availableNames supports := by
    rw [List.filterMap_map]
    simp [getStr_toolDef]
  rw [catalogNames, availableToolCatalog_eq, hnames, Bool.eq_iff_iff, ← OrdMap.mem_keys,
    OrdSet.mem_keys_ofList, decide_eq_true_iff]

theorem discoveredTool_toolDef (texts : ToolTexts) (name : String) :
    getStr (discoveredTool (toolDef texts name)) "name" = some name := by
  rw [discoveredTool, getStr_toolDef]
  simp [getStr, get_json, OrdMap.ofList, OrdMap.get?_insert, Value.asStr]

theorem capabilityGroups_partition :
    (capabilityGroupList.flatMap (·.tools)).Nodup ∧
      ∀ name, name ∈ capabilityGroupList.flatMap (·.tools) ↔ name ∈ toolNames := by
  have hperm : (capabilityGroupList.flatMap (·.tools)).Perm toolNames := by decide +kernel
  have hnodup : toolNames.Nodup := by decide +kernel
  exact ⟨hperm.nodup_iff.mpr hnodup, fun _ => hperm.mem_iff⟩

theorem group_unique {name : String} {g g' : CapabilityGroup} (hg : g ∈ capabilityGroupList)
    (hg' : g' ∈ capabilityGroupList) (hname : name ∈ g.tools) (hname' : name ∈ g'.tools) :
    g = g' := by
  have hdisjoint := (List.nodup_flatMap.mp capabilityGroups_partition.1).2
  by_contra hne
  have hsymm : Std.Symm (fun g g' : CapabilityGroup => List.Disjoint g.tools g'.tools) :=
    ⟨fun _ _ h => h.symm⟩
  exact hdisjoint.forall hg hg' hne hname hname'

theorem getItems_toldGroup (names : OrdSet String) (group : CapabilityGroup) :
    getItems (toldGroup names group) "tools" = (group.available names).map .string := by
  simp [toldGroup, getItems, get_json, OrdMap.ofList, Value.asArray]

theorem mem_capabilityGroups {names : OrdSet String} {value : Value} :
    value ∈ capabilityGroups names ↔
      ∃ group ∈ capabilityGroupList, group.available names ≠ [] ∧ value = toldGroup names group := by
  simp only [capabilityGroups, List.mem_filterMap]
  constructor
  · rintro ⟨group, hgroup, h⟩
    split_ifs at h with hempty
    exact ⟨group, hgroup, hempty, (Option.some.inj h).symm⟩
  · rintro ⟨group, hgroup, hempty, rfl⟩
    exact ⟨group, hgroup, by rw [if_neg hempty]⟩

/-- A tool is available if and only if one group that is told has it, and then no other
group has. -/
theorem told_once (texts : ToolTexts) (supports : String → Bool) (name : String) :
    name ∈ availableNames supports ↔
      ∃! group, group ∈ capabilityGroups (catalogNames (availableToolCatalog texts supports)) ∧
        Value.string name ∈ getItems group "tools" := by
  have hcontains := catalogNames_contains texts supports
  generalize catalogNames (availableToolCatalog texts supports) = names at hcontains
  have htold {group : CapabilityGroup} : Value.string name ∈ getItems (toldGroup names group) "tools" ↔
      name ∈ group.tools ∧ name ∈ availableNames supports := by
    rw [getItems_toldGroup]
    simp [CapabilityGroup.available, hcontains]
  constructor
  · intro hname
    have hcatalog : name ∈ toolNames := (List.mem_filter.mp hname).1
    obtain ⟨group, hgroup, htools⟩ :=
      List.mem_flatMap.mp ((capabilityGroups_partition.2 name).mpr hcatalog)
    have havailable : name ∈ group.available names := by
      simp [CapabilityGroup.available, hcontains, htools, hname]
    refine ⟨toldGroup names group, ⟨mem_capabilityGroups.mpr ⟨group, hgroup,
      List.ne_nil_of_mem havailable, rfl⟩, htold.mpr ⟨htools, hname⟩⟩, ?_⟩
    rintro other ⟨hother, hin⟩
    obtain ⟨group', hgroup', -, rfl⟩ := mem_capabilityGroups.mp hother
    rw [group_unique hgroup hgroup' htools (htold.mp hin).1]
  · rintro ⟨told, ⟨hmem, hin⟩, -⟩
    obtain ⟨group, -, -, rfl⟩ := mem_capabilityGroups.mp hmem
    exact (htold.mp hin).2

variable {identity : McpServerIdentity} {backend grpcTls : String} {arguments document : Value}

theorem discoveryResult_eq_ok
    (h : discoveryResult texts supports identity backend grpcTls arguments = .ok document) :
    document = discoveryDocument texts supports identity backend grpcTls := by
  unfold discoveryResult at h
  split at h
  · exact (Except.ok.inj h).symm
  · exact (Except.ok.inj h).symm
  · cases h
  · cases h

theorem discovery_tools (texts : ToolTexts) (supports : String → Bool)
    (identity : McpServerIdentity) (backend grpcTls : String) :
    (getItems (discoveryDocument texts supports identity backend grpcTls) "tools").map
      (getStr · "name") = (availableNames supports).map some := by
  have hitems : getItems (discoveryDocument texts supports identity backend grpcTls) "tools" =
      (availableToolCatalog texts supports).map discoveredTool := by
    simp [discoveryDocument, getItems, get_json, OrdMap.ofList, Value.asArray]
  rw [hitems, availableToolCatalog_eq, List.map_map, List.map_map]
  apply List.map_congr_left
  intro name _
  exact discoveredTool_toolDef texts name

/-- Discovery and the list of tools cannot disagree, whatever the backend supports: the
same names in the same order, as many as discovery counts, each in one group. -/
theorem discovery_agrees (texts : ToolTexts) (supports : String → Bool)
    (identity : McpServerIdentity) (backend grpcTls : String) (arguments : Value) {document : Value}
    (h : discoveryResult texts supports identity backend grpcTls arguments = .ok document) :
    let listed := (getItems (toolsListResult texts supports) "tools").map (getStr · "name")
    (getItems document "tools").map (getStr · "name") = listed ∧
      get document "tool_count" = some (jsonNat listed.length) ∧
      ∀ name, some name ∈ listed ↔
        ∃! group, group ∈ getItems document "capabilities" ∧
          Value.string name ∈ getItems group "tools" := by
  obtain rfl := discoveryResult_eq_ok h
  have hlisted : (getItems (toolsListResult texts supports) "tools").map (getStr · "name") =
      (availableNames supports).map some := by
    rw [getItems_toolsListResult, List.map_map]
    apply List.map_congr_left
    intro name _
    exact getStr_toolDef texts name
  have hgroups : getItems (discoveryDocument texts supports identity backend grpcTls)
      "capabilities" = capabilityGroups (catalogNames (availableToolCatalog texts supports)) := by
    simp [discoveryDocument, getItems, get_json, OrdMap.ofList, OrdMap.get?_insert, Value.asArray]
  simp only [hlisted, hgroups]
  refine ⟨discovery_tools texts supports identity backend grpcTls, ?_, ?_⟩
  · simp [discoveryDocument, get_json, OrdMap.ofList, OrdMap.get?_insert, availableToolCatalog_eq]
  · intro name
    rw [← told_once]
    simp

def plainTexts : ToolTexts := ⟨fun name => name, fun _ => .null⟩

def reporting (name : String) : Bool := name = generateCeremonyReportTool

def reportingServer : McpServerIdentity := ⟨"underpass-choreo-mcp", "0.1.0"⟩

/-- What a server says of its tools when its backend runs only the one that reports. -/
theorem discovery_agrees_reporting :
    ∃ document,
      discoveryResult plainTexts reporting reportingServer "embedded" "disabled" .null =
        .ok document ∧
      ∃! group, group ∈ getItems document "capabilities" ∧
        Value.string generateCeremonyReportTool ∈ getItems group "tools" := by
  refine ⟨_, rfl, ?_⟩
  apply ((discovery_agrees plainTexts reporting reportingServer "embedded" "disabled" .null
    rfl).2.2 generateCeremonyReportTool).mp
  rw [getItems_toolsListResult, List.map_map]
  refine List.mem_map.mpr ⟨generateCeremonyReportTool, ?_, getStr_toolDef _ _⟩
  decide

end Listed

end Choreographer.ToolCatalog
