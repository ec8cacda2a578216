import MlinkDevice.Server

/-!
# The protocol

`mcp_server_protocol.c`: the replies, the pages of `tools/list`, the arguments of
`tools/call` and the dispatch of one message. Each function returns what it makes the
server do, and the world of the callbacks after it.
-/

open MlinkDevice.CStr

namespace MlinkDevice

variable {W : Type}

/-- `MCP_SERVER_MAX_PAYLOAD`. -/
def maxPayload : ℕ := 8000

/-! ## Replies -/

def resultReply (id : Int32) (result : CJson) : CJson :=
  .object [
    (lit "jsonrpc", .string (lit "2.0")),
    (lit "id", .number id.toInt),
    (lit "result", result)]

def errorReply (id : Int32) (message : CStr) : CJson :=
  .object [
    (lit "jsonrpc", .string (lit "2.0")),
    (lit "id", .number id.toInt),
    (lit "error", .object [(lit "message", .string message)])]

/-- A result text that is not JSON goes out as it is. -/
def mcpServerReplyResult (L : CJsonLib) (id : Int32) (result : CStr) : List (Event W) :=
  [.send (L.print (resultReply id ((L.parse result).getD (.raw result))))]

def mcpServerReplyError (L : CJsonLib) (id : Int32) (message : CStr) : List (Event W) :=
  [.send (L.print (errorReply id message))]

/-! ## initialize -/

def mcpServerAddServerInfo (server : McpServer W) (root : List (CStr × CJson)) :
    List (CStr × CJson) :=
  let name := if server.serverName.first ≠ 0 then server.serverName else lit "MCP_SERVER"
  root ++ [(lit "serverInfo", .object [
    (lit "name", .string name),
    (lit "version", .string (lit "1.0.0"))])]

def initializeJson (server : McpServer W) : CJson :=
  .object (mcpServerAddServerInfo server [
    (lit "protocolVersion", .string (lit "2024-11-05")),
    (lit "capabilities", .object [(lit "tools", .object [])])])

def mcpServerBuildInitializeResult (L : CJsonLib) (server : McpServer W) : CStr :=
  L.print (initializeJson server)

/-! ## tools/list -/

/-- The variables of the loop over the tools. `nextCursor` is the 64-byte buffer, and
`stopped` remembers the tool at which the loop breaks. -/
structure PageState (W : Type) where
  start : Bool
  tools : List CJson := []
  estimatedSize : ℕ := 50
  nextCursor : CStr := ∅
  stopped : Option (McpTool W) := none

def pageJson (tools : List CJson) (nextCursor : CStr) : CJson :=
  .object ([(lit "tools", .array tools)] ++
    if nextCursor.first ≠ 0 then [(lit "nextCursor", .string nextCursor)] else [])

def toolSizeEstimate (tool : McpTool W) : ℕ :=
  tool.name.strlen + tool.description.strlen + 200

def listTools (L : CJsonLib) (cursor : Option CStr) (includeUserTools : Bool) :
    List (McpTool W) → PageState W → PageState W
  | [], st => st
  | tool :: rest, st =>
    if !includeUserTools && tool.userOnly then listTools L cursor includeUserTools rest st
    else if !st.start && cursor != some tool.name then listTools L cursor includeUserTools rest st
    else
      let st := { st with start := true }
      if maxPayload < st.estimatedSize + toolSizeEstimate tool then
        { st with nextCursor := tool.name.strncpy 63, stopped := some tool }
      else
        match mcpToolToJson L tool with
        | none => listTools L cursor includeUserTools rest st
        | some toolJson =>
          -- The real length counts only near the limit, which is 8000 * 0.9 in the source.
          if maxPayload * 9 / 10 < st.estimatedSize + toolJson.strlen ∧
              maxPayload < toolJson.strlen + (L.print (pageJson st.tools ∅)).strlen then
            { st with nextCursor := tool.name.strncpy 63, stopped := some tool }
          else
            match L.parse toolJson with
            | none => listTools L cursor includeUserTools rest st
            | some toolObject =>
              listTools L cursor includeUserTools rest { st with
                tools := st.tools ++ [toolObject]
                estimatedSize := st.estimatedSize + toolSizeEstimate tool }

def starts (cursor : Option CStr) : Bool :=
  match cursor with
  | none => true
  | some cursor => cursor.first == 0

def finalPage (L : CJsonLib) (server : McpServer W) (cursor : Option CStr)
    (includeUserTools : Bool) : PageState W :=
  listTools L cursor includeUserTools server.tools { start := starts cursor }

/-- NULL stands for a failed allocation, which does not happen here. -/
def mcpServerBuildToolsList (L : CJsonLib) (server : McpServer W) (cursor : Option CStr)
    (includeUserTools : Bool) : Option CStr :=
  let page := finalPage L server cursor includeUserTools
  some (L.print (pageJson page.tools page.nextCursor))

/-! ## tools/call -/

structure ParsedArguments where
  parsed : List McpProperty
  ok : Bool
  errorProperty : Option CStr

/-- The loop over the copied properties. A missing argument goes on, a bad one stops. -/
def parseArgumentsLoop (arguments : Option CJson) :
    List McpProperty → Bool → Option CStr → ParsedArguments
  | [], ok, errorProperty => ⟨[], ok, errorProperty⟩
  | property :: rest, ok, errorProperty =>
    let value := arguments.bind fun arguments => property.name.bind arguments.getObjectItem
    match value with
    | none =>
      let tail := if property.hasDefault then parseArgumentsLoop arguments rest ok errorProperty
        else parseArgumentsLoop arguments rest false property.name
      { tail with parsed := property :: tail.parsed }
    | some value =>
      match mcpPropertyCopyFromJson property value with
      | (false, property') => ⟨property' :: rest, false, property'.name⟩
      | (true, property') =>
        let tail := parseArgumentsLoop arguments rest ok errorProperty
        { tail with parsed := property' :: tail.parsed }

def mcpServerParseArguments (tool : McpTool W) (arguments : Option CJson) : ParsedArguments :=
  parseArgumentsLoop arguments (mcpPropertyListClone tool.properties) true none

/-- `snprintf` into a buffer of 128 bytes. -/
def message128 (text : CStr) : CStr := text.strncpy 127

def mcpServerDoToolCall (L : CJsonLib) (server : McpServer W) (id : Int32) (toolName : CStr)
    (arguments : Option CJson) (w : W) : List (Event W) × W :=
  match mcpServerFindToolByHash server toolName with
  | none => (mcpServerReplyError L id (message128 (lit "Unknown tool: " ++ toolName)), w)
  | some tool =>
    let args := mcpServerParseArguments tool arguments
    if !args.ok then
      (mcpServerReplyError L id (message128
        (lit "Invalid argument: " ++ args.errorProperty.getD (lit "unknown"))), w)
    else
      match mcpToolCall L tool args.parsed w with
      | (some result, events, w) => (events ++ mcpServerReplyResult L id result, w)
      | (none, events, w) => (events ++ mcpServerReplyError L id (lit "Tool call failed"), w)

/-! ## Messages -/

def cursorOf (params : Option CJson) : Option CStr :=
  match params.bind (·.getObjectItem (lit "cursor")) with
  | some (.string cursor) => some cursor
  | _ => none

def includeUserToolsOf (params : Option CJson) : Bool :=
  match params.bind (·.getObjectItem (lit "withUserTools")) with
  | some (.bool b) => b
  | _ => false

def callTool (L : CJsonLib) (server : McpServer W) (params : Option CJson) (id : Int32) (w : W) :
    List (Event W) × W :=
  match params with
  | none => (mcpServerReplyError L id (lit "Missing params"), w)
  | some params =>
    match params.getObjectItem (lit "name") with
    | some (.string name) =>
      let arguments := params.getObjectItem (lit "arguments")
      if arguments.all CJson.isObject then mcpServerDoToolCall L server id name arguments w
      else (mcpServerReplyError L id (lit "Invalid arguments"), w)
    | _ => (mcpServerReplyError L id (lit "Missing tool name"), w)

/-- The part of `mcp_server_parse_message_json` after the checks of the envelope. -/
def dispatch (L : CJsonLib) (server : McpServer W) (method : CStr) (params : Option CJson)
    (id : Int32) (w : W) : List (Event W) × W :=
  if method = lit "initialize" then
    (mcpServerReplyResult L id (mcpServerBuildInitializeResult L server), w)
  else if method = lit "tools/list" then
    match mcpServerBuildToolsList L server (cursorOf params) (includeUserToolsOf params) with
    | some toolsResult => (mcpServerReplyResult L id toolsResult, w)
    | none => (mcpServerReplyError L id (lit "Failed to generate tools list"), w)
  else if method = lit "tools/call" then callTool L server params id w
  else
    (mcpServerReplyError L id (message128 (lit "Method not implemented: " ++ method)), w)

def mcpServerParseMessageJson (L : CJsonLib) (server : McpServer W) (json : CJson) (w : W) :
    List (Event W) × W :=
  match json.getObjectItem (lit "jsonrpc") with
  | some (.string version) =>
    if version ≠ lit "2.0" then ([], w)
    else
      match json.getObjectItem (lit "method"), json.getObjectItem (lit "id") with
      | some (.string method), some (.number id) =>
        dispatch L server method (json.getObjectItem (lit "params")) (CJson.valueint id) w
      | _, _ => ([], w)
  | _ => ([], w)

def mcpServerParseMessage (L : CJsonLib) (server : McpServer W) (message : CStr) (w : W) :
    List (Event W) × W :=
  match L.parse message with
  | none => ([], w)
  | some json => mcpServerParseMessageJson L server json w

def parseMessages (L : CJsonLib) (server : McpServer W) : List CStr → W → List (Event W) × W
  | [], w => ([], w)
  | message :: rest, w =>
    let first := mcpServerParseMessage L server message w
    let others := parseMessages L server rest first.2
    (first.1 ++ others.1, others.2)

/-! ## Events -/

def Event.payload : Event W → Option CStr
  | .send payload => some payload
  | .call _ _ => none

def payloads (events : List (Event W)) : List CStr := events.filterMap Event.payload

def Event.called : Event W → Option (McpTool W × List McpProperty)
  | .send _ => none
  | .call tool arguments => some (tool, arguments)

def calls (events : List (Event W)) : List (McpTool W × List McpProperty) :=
  events.filterMap Event.called

@[simp]
theorem payloads_append (xs ys : List (Event W)) : payloads (xs ++ ys) = payloads xs ++ payloads ys :=
  List.filterMap_append ..

end MlinkDevice
