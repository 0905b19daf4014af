import Octo.Config.Types

/-!
# The capability schema

`schema/types.ts` and the table of `schema/capabilities.json`: the block types the editor knows
with their fields, and the connector types with their settings and sources.  Both serializer and
validator are driven by it.  Presentation data (icons, palette groups, descriptions, enumerated
choices) is left out; the labels stay, since the validator's messages name them.
-/

namespace Octo.Editor

inductive FieldType where
  | string
  | number
  | boolean
  | cel
  | enum
  | stringList
  | stringMap
  | flow
  | flowList
  | caseList
  | routeList
  | toolList
  | blockList
  | object
  | transformList
deriving DecidableEq

/-- A field that names a connection or a flow. -/
inductive ReferenceSpec where
  | connectorType (type : String)
  | connectorCategory (category : String)
  | flow
deriving DecidableEq

/-- What a field starts with in a new block, source or connection. -/
inductive Default where
  | text (s : String)
  | flag (b : Bool)
  | number (n : Int)
deriving DecidableEq

structure FieldSpec where
  name : String
  label : String
  type : FieldType
  required : Bool := false
  ref : Option ReferenceSpec := none
  default' : Option Default := none
deriving DecidableEq

structure BlockSpec where
  type : String
  label : String
  fields : List FieldSpec
deriving DecidableEq

structure SourceSpec where
  type : String
  fields : List FieldSpec
deriving DecidableEq

structure ConnectorSpec where
  type : String
  category : Option String := none
  settings : List FieldSpec
  sources : List SourceSpec
deriving DecidableEq

/-- `SLOT_FIELD_TYPES`: the field types held in slots rather than settings. -/
def FieldType.isSlot : FieldType → Bool
  | .flow | .flowList | .caseList | .routeList | .toolList | .blockList => true
  | _ => false

def isSlotField (field : FieldSpec) : Bool := field.type.isSlot

/-! ## Fields -/

variable (name label : String)

variable (type : FieldType)

def field : FieldSpec := { name, label, type }

def needed : FieldSpec :=
  { field name label type with required := true }

def preset (value : Default) : FieldSpec :=
  { field name label type with default' := some value }

/-- The required field that names the connection of a block. -/
def connectorField (ref : ReferenceSpec) : FieldSpec :=
  { needed "connector" "Connector" .string with ref := some ref }

/-! ## Blocks and connectors -/

def specFlowRef : BlockSpec where
  type := "flow-ref"
  label := "Flow Reference"
  fields := [{ needed "flow" "Flow" .string with ref := some .flow },
    preset "oneWay" "One-way" .boolean (.flag false)]

/-- `CAPABILITIES.blocks`. -/
def blockSpecs : List BlockSpec :=
  [⟨"set-payload", "Set Payload", [needed "value" "Value" .cel]⟩,
   ⟨"set-variable", "Set Variable", [needed "name" "Name" .string, needed "value" "Value" .cel]⟩,
   ⟨"delete-variable", "Delete Variable", [needed "name" "Name" .string]⟩,
   ⟨"multi-transform", "Multi Transform", [needed "transforms" "Transforms" .transformList]⟩,
   ⟨"log", "Log",
     [field "message" "Message" .cel, preset "level" "Level" .enum (.text "info"),
      { field "logger" "Logger" .string with ref := some (.connectorType "logger") },
      preset "full" "Full message" .boolean (.flag false)]⟩,
   ⟨"rest", "REST Call",
     [connectorField (.connectorType "http-client"), preset "method" "Method" .enum (.text "GET"),
      field "path" "Path" .string, field "query" "Query" .stringMap,
      field "headers" "Headers" .stringMap, field "body" "Body" .cel,
      preset "failOnError" "Fail on error" .boolean (.flag true),
      preset "statusVar" "Status variable" .string (.text "statusCode")]⟩,
   ⟨"sql", "SQL",
     [connectorField (.connectorType "database"), needed "query" "Query" .string,
      field "args" "Arguments" .stringList, preset "exec" "Exec mode" .boolean (.flag false),
      preset "single" "Single row" .boolean (.flag false)]⟩,
   specFlowRef,
   ⟨"handle-errors", "Handle Errors",
     [needed "process" "Process" .blockList, needed "error" "Error" .blockList]⟩,
   ⟨"fork", "Fork", [needed "branches" "Branches" .flowList]⟩,
   ⟨"if", "If",
     [needed "condition" "Condition" .cel, needed "then" "Then" .flow, field "else" "Else" .flow]⟩,
   ⟨"switch", "Switch", [needed "cases" "Cases" .caseList, field "default" "Default" .flow]⟩,
   ⟨"foreach", "For Each",
     [needed "items" "Items" .cel, preset "as" "As" .string (.text "item"),
      needed "body" "Body" .flow]⟩,
   ⟨"enrich", "Enrich",
     [field "setBody" "Set body" .cel, field "setVars" "Set variables" .stringMap,
      needed "body" "Body" .flow]⟩,
   ⟨"ai-mapping", "AI Mapping",
     [connectorField (.connectorCategory "llm"), needed "prompt" "Prompt" .string,
      field "inputExample" "Input example" .string, field "outputExample" "Output example" .string,
      field "outputSchema" "Output schema" .string, field "maxTokens" "Max tokens" .number]⟩,
   ⟨"ai-retry", "AI Retry",
     [connectorField (.connectorCategory "llm"), needed "prompt" "Prompt" .string,
      preset "maxAttempts" "Max attempts" .number (.number 3),
      needed "process" "Process" .blockList, field "error" "Error" .blockList]⟩,
   ⟨"ai-router", "AI Router",
     [connectorField (.connectorCategory "llm"), needed "prompt" "Prompt" .string,
      field "guardrail" "Guardrail" .string, needed "routes" "Routes" .routeList,
      field "default" "Default" .flow]⟩,
   ⟨"ai-agent", "AI Agent",
     [connectorField (.connectorCategory "llm"), needed "prompt" "Prompt" .string,
      field "guardrail" "Guardrail" .string, field "maxIterations" "Max iterations" .number,
      field "memoryThreadId" "Memory thread ID" .cel,
      preset "memoryMaxTokens" "Memory max tokens" .number (.number 8000),
      preset "memoryCompaction" "Memory compaction" .enum (.text "prune"),
      needed "tools" "Tools" .toolList, field "default" "Default" .flow]⟩,
   ⟨"clear-agent-memory", "Clear Agent Memory", [needed "threadId" "Thread ID" .cel]⟩,
   ⟨"cache-scope", "Cache",
     [needed "key" "Cache Key" .cel, preset "ttl" "TTL" .string (.text "60s"),
      needed "body" "Body" .flow]⟩,
   ⟨"invalidate-cache", "Invalidate Cache", [needed "key" "Cache Key" .cel]⟩,
   ⟨"object-read", "Object Read",
     [needed "key" "Key" .cel, field "as" "As variable" .string, field "default" "Default" .cel,
      field "existsVar" "Exists variable" .string]⟩,
   ⟨"object-write", "Object Write", [needed "key" "Key" .cel, field "value" "Value" .cel]⟩,
   ⟨"object-delete", "Object Delete", [needed "key" "Key" .cel]⟩,
   ⟨"queue-dispatch", "Queue Dispatch",
     [needed "subject" "Subject" .cel, preset "awaitReply" "Await reply" .boolean (.flag false),
      field "timeout" "Timeout" .string]⟩,
   ⟨"publish-event", "Publish Event",
     [needed "subject" "Subject" .cel, field "value" "Value" .cel]⟩,
   ⟨"slack-send-message", "Slack Send Message",
     [connectorField (.connectorType "slack"), needed "target" "Target" .cel,
      field "text" "Text" .cel, field "threadTs" "Thread timestamp" .cel,
      field "blocks" "Blocks" .cel, preset "failOnError" "Fail on error" .boolean (.flag true)]⟩,
   ⟨"slack-verify-request", "Slack Verify Request",
     [connectorField (.connectorType "slack"),
      preset "signatureHeader" "Signature variable" .string (.text "X-Slack-Signature"),
      preset "timestampHeader" "Timestamp variable" .string (.text "X-Slack-Request-Timestamp"),
      preset "rawBodyVar" "Raw body variable" .string (.text "rawBody")]⟩,
   ⟨"slack-event", "Slack Event",
     [field "eventTypes" "Event types" .stringList, field "filter" "Filter" .cel]⟩,
   ⟨"slack-lookup-user", "Slack Lookup User",
     [connectorField (.connectorType "slack"), preset "by" "Look up by" .enum (.text "email"),
      field "email" "Email" .cel, field "user" "User ID" .cel,
      preset "resultVar" "Result variable" .string (.text "slackUser"),
      preset "failOnError" "Fail on error" .boolean (.flag true)]⟩,
   ⟨"slack-add-reaction", "Slack Add Reaction",
     [connectorField (.connectorType "slack"), needed "channel" "Channel" .cel,
      needed "timestamp" "Timestamp" .cel, needed "emoji" "Emoji" .cel,
      preset "failOnError" "Fail on error" .boolean (.flag true)]⟩,
   ⟨"slack-update-message", "Slack Update Message",
     [connectorField (.connectorType "slack"), needed "channel" "Channel" .cel,
      needed "timestamp" "Timestamp" .cel, field "text" "Text" .cel, field "blocks" "Blocks" .cel,
      preset "failOnError" "Fail on error" .boolean (.flag true)]⟩]

/-- `CAPABILITIES.connectors`. -/
def connectorSpecs : List ConnectorSpec :=
  [⟨"queue", none, [],
     [⟨"queue", [needed "subject" "Subject" .string, field "listeners" "Listeners" .number,
       field "timeout" "Timeout" .string]⟩]⟩,
   ⟨"events", none, [],
     [⟨"events", [needed "subject" "Subject" .string, field "listeners" "Listeners" .number]⟩]⟩,
   ⟨"cron", none, [],
     [⟨"cron", [needed "schedule" "Schedule" .string, field "payload" "Payload" .cel,
       field "correlationID" "Correlation ID" .string]⟩]⟩,
   ⟨"http", none,
     [field "host" "Host" .string, preset "port" "Port" .number (.number 8080),
      field "basePath" "Base path" .string, field "keepAlive" "Keep-alive" .boolean,
      preset "requestTimeout" "Request timeout" .string (.text "30s"),
      field "readTimeout" "Read timeout" .string, field "writeTimeout" "Write timeout" .string,
      field "idleTimeout" "Idle timeout" .string],
     [⟨"http", [needed "path" "Path" .string, field "headers" "Headers" .stringList,
       field "correlationIdHeader" "Correlation ID header" .string,
       field "rawBodyVar" "Raw body variable" .string, field "timeout" "Timeout" .string,
       preset "maxBodyBytes" "Max body bytes" .number (.number 1048576)]⟩]⟩,
   ⟨"http-client", none,
     [needed "baseURL" "Base URL" .string, preset "timeout" "Timeout" .string (.text "30s"),
      field "headers" "Headers" .stringMap,
      preset "maxResponseBytes" "Max response bytes" .number (.number 1048576),
      field "auth" "Authentication" .object],
     []⟩,
   ⟨"database", none,
     [needed "driver" "Driver" .enum, needed "dsn" "DSN" .string,
      field "maxOpenConns" "Max open connections" .number,
      field "maxIdleConns" "Max idle connections" .number,
      field "connMaxLifetime" "Connection max lifetime" .string],
     []⟩,
   ⟨"logger", none,
     [preset "output" "Output" .string (.text "stdout"),
      preset "format" "Format" .enum (.text "text"), preset "level" "Level" .enum (.text "info"),
      preset "addSource" "Add source" .boolean (.flag false)],
     []⟩,
   ⟨"llm-anthropic", some "llm",
     [needed "apiKey" "API key" .string, preset "model" "Model" .string (.text "claude-sonnet-4-6"),
      preset "maxTokens" "Max tokens" .number (.number 4096), field "baseURL" "Base URL" .string],
     []⟩,
   ⟨"llm-openai", some "llm",
     [needed "apiKey" "API key" .string, preset "model" "Model" .string (.text "gpt-5.4"),
      field "maxTokens" "Max tokens" .number, field "baseURL" "Base URL" .string],
     []⟩,
   ⟨"llm-gemini", some "llm",
     [needed "apiKey" "API key" .string, preset "model" "Model" .string (.text "gemini-3.5-flash"),
      field "maxTokens" "Max tokens" .number, field "baseURL" "Base URL" .string],
     []⟩,
   ⟨"slack", none,
     [needed "botToken" "Bot token" .string, field "signingSecret" "Signing secret" .string,
      preset "timeout" "Timeout" .string (.text "30s")],
     []⟩]

/-! ## Lookup -/

variable (type : String)

def getBlockSpec : Option BlockSpec := blockSpecs.find? (·.type = type)

def getConnectorSpec : Option ConnectorSpec := connectorSpecs.find? (·.type = type)

def getSourceSpec (connector type : String) : Option SourceSpec :=
  (getConnectorSpec connector).bind fun c => c.sources.find? (·.type = type)

def slotFields : List FieldSpec :=
  ((getBlockSpec type).map fun spec => spec.fields.filter isSlotField).getD []

def isComposite : Bool := !(slotFields type).isEmpty

end Octo.Editor
