import MlinkDevice.Device
import MlinkDevice.Validate

/-!
# A call from afar

A client calls a tool by its name, with typed arguments, and reads the outcome off the reply.
The same call can be made where the tools are, without any text. Both come to the same.
-/

open MlinkDevice.CStr

namespace MlinkDevice

variable {W : Type} {L : CJsonLib}

/-! ## The client -/

inductive Argument where
  | bool (b : Bool)
  | int (i : Int32)
  | string (s : CStr)
deriving DecidableEq

structure ClientCall where
  id : Int32
  tool : CStr
  arguments : List (CStr × Argument)

/-- The first argument of that name. -/
def ClientCall.find (c : ClientCall) (name : CStr) : Option Argument := List.lookup name c.arguments

def Argument.json : Argument → CJson
  | .bool b => .bool b
  | .int i => .number i.toInt
  | .string s => .string s

def ClientCall.params (c : ClientCall) : CJson :=
  .object [
    (lit "name", .string c.tool),
    (lit "arguments", .object (c.arguments.map fun a => (a.1, a.2.json)))]

def ClientCall.text (L : CJsonLib) (c : ClientCall) : CStr :=
  L.print (requestJson c.id (lit "tools/call") c.params)

inductive Content where
  | text (text : CStr)
  | image (data : Option CStr)
deriving DecidableEq

inductive CallOutcome where
  | result (content : Content)
  | error (message : CStr)
deriving DecidableEq

def readContent (entry : CJson) : Option Content :=
  match entry.member (lit "type"), entry.member (lit "text"), entry.member (lit "image") with
  | some (.string type), some (.string text), none =>
    if type = lit "text" then some (.text text) else none
  | some (.string type), none, some (.string data) =>
    if type = lit "image" then some (.image (some data)) else none
  | some (.string type), none, none => if type = lit "image" then some (.image none) else none
  | _, _, _ => none

/-- The one entry of a result. -/
def readResult (result : CJson) : Option Content :=
  match result.member (lit "content") with
  | some (.array [entry]) => readContent entry
  | _ => none

/-- The id of a reply, and the outcome in it. -/
def readOutcome (reply : CJson) : Option (ℚ × CallOutcome) :=
  match reply.member (lit "id"), reply.member (lit "result"), reply.member (lit "error") with
  | some (.number id), some result, none =>
    (readResult result).map fun content => (id, .result content)
  | some (.number id), none, some error =>
    match error.member (lit "message") with
    | some (.string message) => some (id, .error message)
    | _ => none
  | _, _, _ => none

/-! ## The same call where the tools are -/

def Argument.value : Argument → McpPropertyValue
  | .bool b => .boolean b
  | .int i => .integer i
  | .string s => .string (some s)

def Argument.fits (p : McpProperty) : Argument → Bool
  | .bool _ => p.type = .boolean
  | .int i => p.type = .integer ∧ inBounds p i
  | .string _ => p.type = .string

section Binding

variable (find : CStr → Option Argument)

/-- A property takes its argument, or stays as it is declared. -/
def McpProperty.bind (p : McpProperty) : McpProperty :=
  match p.name.bind find with
  | none => p
  | some a => { p with value := a.value, hasDefault := true }

def McpProperty.misfits (p : McpProperty) : Bool := (p.name.bind find).any fun a => !a.fits p

def McpProperty.leftOpen (p : McpProperty) : Bool := (p.name.bind find).isNone && !p.hasDefault

/-- The first property with an argument that does not fit, or else the last that is left open. -/
def unbound (properties : List McpProperty) : Option McpProperty :=
  (properties.find? (McpProperty.misfits find)).or (properties.filter (McpProperty.leftOpen find)).getLast?

end Binding

/-- What the result of a callback shows. -/
def McpReturnValue.content (L : CJsonLib) : McpReturnValue → Content
  | .bool b => .text (if b then lit "true" else lit "false")
  | .int i => .text (printfInt i)
  | .string s => .text (s.getD ∅)
  | .json j => .text ((j.map L.print).getD ∅)
  | .image data => .image (data.map fun s => s.getD ∅)

/-- The outcome of a call, the callback that ran with its arguments, and the world after it. -/
def callHere (L : CJsonLib) (tools : List (McpTool W)) (c : ClientCall) (w : W) :
    CallOutcome × List (McpTool W × List McpProperty) × W :=
  match tools.find? fun tool => tool.name == c.tool with
  | none => (.error (message128 (lit "Unknown tool: " ++ c.tool)), [], w)
  | some tool =>
    match unbound c.find tool.properties, tool.callback with
    | some p, _ =>
      (.error (message128 (lit "Invalid argument: " ++ p.name.getD (lit "unknown"))), [], w)
    | none, none => (.error (lit "Tool call failed"), [], w)
    | none, some callback =>
      let arguments := tool.properties.map (McpProperty.bind c.find)
      let (value, w') := callback arguments w
      (.result (value.content L), [(tool, arguments)], w')

def callsHere (L : CJsonLib) (tools : List (McpTool W)) : List ClientCall → W →
    List (ℚ × CallOutcome) × List (McpTool W × List McpProperty) × W
  | [], w => ([], [], w)
  | c :: rest, w =>
    let first := callHere L tools c w
    let others := callsHere L tools rest first.2.2
    ((c.id.toInt, first.1) :: others.1, first.2.1 ++ others.2.1, others.2.2)

/-- Where an argument is named as a property of the tool up to letter case, it has its very name. -/
def ClientCall.Exact (tools : List (McpTool W)) (c : ClientCall) : Prop :=
  ∀ tool ∈ tools, tool.name = c.tool → ∀ p ∈ tool.properties, ∀ name, p.name = some name →
    ∀ a ∈ c.arguments, a.1.sameLetters name = true → a.1 = name

/-! ## The arguments -/

section Arguments

variable {c : ClientCall} {properties : List McpProperty} {p : McpProperty}

theorem Argument.json_plain (a : Argument) : a.json.Plain := by
  cases a <;> simp [Argument.json]

theorem ClientCall.params_plain (c : ClientCall) : c.params.Plain := by
  simp only [ClientCall.params, CJson.plain_object, List.forall_mem_cons, List.forall_mem_map]
  exact ⟨CJson.plain_string _, fun a _ => a.2.json_plain, fun _ h => absurd h List.not_mem_nil⟩

def ClientCall.argumentsJson (c : ClientCall) : CJson :=
  .object (c.arguments.map fun a => (a.1, a.2.json))

theorem member_arguments (arguments : List (CStr × Argument)) (name : CStr) :
    (CJson.object (arguments.map fun a => (a.1, a.2.json))).member name =
      (List.lookup name arguments).map Argument.json := by
  induction arguments with
  | nil => rfl
  | cons a rest ih =>
    rw [CJson.member] at ih ⊢
    rw [List.map_cons, List.find?_cons, List.lookup_cons]
    cases hname : name == a.1 with
    | true => rfl
    | false => exact ih

theorem argumentOf_arguments (hp : ∀ name, p.name = some name →
      ∀ a ∈ c.arguments, a.1.sameLetters name = true → a.1 = name) :
    argumentOf (some c.argumentsJson) p = (p.name.bind c.find).map Argument.json := by
  rw [argumentOf_eq]
  cases hname : p.name with
  | none => rfl
  | some name =>
    have hkeys : ∀ v, some c.argumentsJson = some v → ∀ key ∈ v.keys,
        key.sameLetters name = true → key = name := by
      rintro _ ⟨⟩ key hkey
      obtain ⟨m, hm, rfl⟩ := List.mem_map.mp hkey
      obtain ⟨a, ha, rfl⟩ := List.mem_map.mp hm
      exact hp name hname a ha
    rw [Option.bind_some, Option.bind_some, found_eq_exactly hkeys]
    exact member_arguments c.arguments name

theorem Argument.accepts_json (p : McpProperty) (a : Argument) : accepts p a.json = a.fits p := by
  obtain ⟨name, value, hasDefault, hasMin, hasMax, minValue, maxValue⟩ := p
  cases value <;> cases a <;> simp [Argument.json, Argument.fits, accepts, McpProperty.type]

theorem Argument.stored_json (p : McpProperty) (a : Argument) :
    stored p a.json = { p with value := a.value, hasDefault := true } := by
  cases a <;> simp [Argument.json, Argument.value, stored]

theorem blamed_arguments (h : ∀ p ∈ properties, ∀ name, p.name = some name →
      ∀ a ∈ c.arguments, a.1.sameLetters name = true → a.1 = name) :
    blamed (some c.argumentsJson) properties = unbound c.find properties := by
  have hrejects : ∀ p ∈ properties, rejects (some c.argumentsJson) p = p.misfits c.find := by
    intro p hp
    rw [rejects, argumentOf_arguments (h p hp), McpProperty.misfits, Option.any_map]
    simp only [Argument.accepts_json]
  have hlacks : ∀ p ∈ properties, lacks (some c.argumentsJson) p = p.leftOpen c.find := by
    intro p hp
    rw [lacks, argumentOf_arguments (h p hp), McpProperty.leftOpen, Option.isNone_map]
  rw [blamed, unbound, List.find?_congr hrejects, List.filter_congr hlacks]

theorem received_arguments (h : ∀ name, p.name = some name →
      ∀ a ∈ c.arguments, a.1.sameLetters name = true → a.1 = name) :
    received (some c.argumentsJson) p = p.bind c.find := by
  rw [received, argumentOf_arguments h, McpProperty.bind]
  cases p.name.bind c.find with
  | none => rfl
  | some a => exact a.stored_json p

theorem parseArguments_here {tool : McpTool W} (h : ∀ p ∈ tool.properties, ∀ name,
      p.name = some name → ∀ a ∈ c.arguments, a.1.sameLetters name = true → a.1 = name) :
    match unbound c.find tool.properties with
    | none => mcpServerParseArguments tool (some c.argumentsJson) =
        ⟨tool.properties.map (McpProperty.bind c.find), true, none⟩
    | some p => (mcpServerParseArguments tool (some c.argumentsJson)).ok = false ∧
        (mcpServerParseArguments tool (some c.argumentsJson)).errorProperty = p.name := by
  have hblamed := blamed_arguments h
  cases hunbound : unbound c.find tool.properties with
  | none =>
    rw [hunbound, blamed_eq_none] at hblamed
    rw [parseArguments_passes hblamed]
    dsimp only
    rw [List.map_congr_left fun p hp => received_arguments (h p hp)]
  | some p =>
    rw [hunbound] at hblamed
    refine ⟨?_, ?_⟩
    · rw [← Bool.not_eq_true, parseArguments_ok_iff, ← blamed_eq_none, hblamed]
      exact Option.some_ne_none p
    · rw [parseArguments_blames, hblamed, Option.bind_some]

end Arguments

/-! ## One call -/

theorem readOutcome_errorReply (id : Int32) (message : CStr) :
    readOutcome (errorReply id message) = some ((id.toInt : ℚ), .error message) := rfl

theorem readOutcome_resultReply (L : CJsonLib) (id : Int32) (value : McpReturnValue) :
    readOutcome (resultReply id (contentJson L value)) = some ((id.toInt : ℚ), .result (value.content L)) := by
  rcases value with b | i | s | j | (_ | data) <;> rfl

/-- The events do that, and their one payload is a reply that a client reads so. -/
structure Answers (L : CJsonLib) (events : List (Event W)) (id : Int32) (outcome : CallOutcome)
    (ran : List (McpTool W × List McpProperty)) : Prop where
  calls : calls events = ran
  reply : ∃ v, payloads events = [L.print v] ∧ v.Plain ∧ v.isObject = true ∧
    readOutcome v = some ((id.toInt : ℚ), outcome)

theorem replyError_answers (L : CJsonLib) (id : Int32) (message : CStr) :
    Answers L (mcpServerReplyError L id message : List (Event W)) id (.error message) [] :=
  ⟨rfl, _, rfl, errorReply_plain id message, rfl, readOutcome_errorReply id message⟩

section Call

variable {server : McpServer W} {c : ClientCall}

theorem doToolCall_here (hL : L.RoundTrips) (hs : server.InStep) (h : c.Exact server.tools) (w : W) :
    let done := mcpServerDoToolCall L server c.id c.tool (some c.argumentsJson) w
    let here := callHere L server.tools c w
    Answers L done.1 c.id here.1 here.2.1 ∧ done.2 = here.2.2 := by
  unfold mcpServerDoToolCall callHere
  rw [find_eq hs]
  cases hfind : server.tools.find? fun tool => tool.name == c.tool with
  | none => exact ⟨replyError_answers L c.id _, rfl⟩
  | some tool =>
    have hname : tool.name = c.tool := by simpa using List.find?_some hfind
    have hparse := parseArguments_here (h tool (List.mem_of_find?_eq_some hfind) hname)
    cases hunbound : unbound c.find tool.properties with
    | some p =>
      rw [hunbound] at hparse
      simp only [hparse.1, hparse.2, hunbound, Bool.not_false, if_true]
      exact ⟨replyError_answers L c.id _, trivial⟩
    | none =>
      rw [hunbound] at hparse
      dsimp only at hparse
      simp only [hparse, hunbound, Bool.not_true, Bool.false_eq_true, if_false]
      cases hcallback : tool.callback with
      | none =>
        simp only [mcpToolCall, hcallback]
        exact ⟨replyError_answers L c.id _, trivial⟩
      | some callback =>
        let value := (callback (tool.properties.map (McpProperty.bind c.find)) w).1
        have hplain := contentJson_plain L value
        have hreply := replyResult_eq (W := W) hL c.id hplain
        simp only [mcpToolCall, hcallback, mcpBuildContentFromReturn]
        rw [hreply]
        exact ⟨⟨rfl, _, rfl, resultReply_plain hplain, rfl, readOutcome_resultReply L c.id value⟩,
          trivial⟩

theorem parseMessage_call (hL : L.RoundTrips) (server : McpServer W) (c : ClientCall) (w : W) :
    mcpServerParseMessage L server (c.text L) w =
      mcpServerDoToolCall L server c.id c.tool (some c.argumentsJson) w := by
  rw [parseMessage_eq, ClientCall.text, requestOf_requestJson hL _ _ c.params_plain]
  rfl

/-- **Step.** A call that a client sends is the call made here. -/
theorem parseMessage_here (hL : L.RoundTrips) (hs : server.InStep) (h : c.Exact server.tools) (w : W) :
    let done := mcpServerParseMessage L server (c.text L) w
    let here := callHere L server.tools c w
    Answers L done.1 c.id here.1 here.2.1 ∧ done.2 = here.2.2 := by
  rw [parseMessage_call hL server c w]
  exact doToolCall_here hL hs h w

/-- **Run.** A session of calls is the same calls made here. -/
theorem parseMessages_here (hL : L.RoundTrips) (hs : server.InStep) {session : List ClientCall}
    (h : ∀ c ∈ session, c.Exact server.tools) (w : W) :
    let done := parseMessages L server (session.map (ClientCall.text L)) w
    let here := callsHere L server.tools session w
    calls done.1 = here.2.1 ∧ done.2 = here.2.2 ∧
      ∃ vs : List CJson, payloads done.1 = vs.map L.print ∧
        (∀ v ∈ vs, v.Plain ∧ v.isObject = true) ∧ vs.map readOutcome = here.1.map some := by
  induction session generalizing w with
  | nil => exact ⟨rfl, rfl, [], rfl, fun _ h => absurd h List.not_mem_nil, rfl⟩
  | cons c rest ih =>
    obtain ⟨hc, hrest⟩ := List.forall_mem_cons.mp h
    obtain ⟨⟨hcalls, v, hpayload, hplain, hobject, hread⟩, hworld⟩ := parseMessage_here hL hs hc w
    obtain ⟨hcalls', hworld', vs, hpayloads, hvs, hreads⟩ := ih hrest
      (mcpServerParseMessage L server (c.text L) w).2
    rw [hworld] at hcalls' hworld' hpayloads hreads
    simp only [List.map_cons, parseMessages, callsHere, hworld]
    refine ⟨?_, hworld', v :: vs, ?_, List.forall_mem_cons.mpr ⟨⟨hplain, hobject⟩, hvs⟩, ?_⟩
    · rw [← hcalls, ← hcalls']
      exact List.filterMap_append
    · rw [payloads_append, hpayload, hpayloads]
      rfl
    · rw [List.map_cons, hread, hreads]

end Call

/-! ## A session over the connection -/

/-- Sets the level of a lamp, and the world is that level. -/
def dim : McpTool Int32 where
  name := lit "dim"
  description := lit "sets the level"
  properties := (mcpPropertyListAddInt [] (some (lit "level")) false 0 true 0 true 100).2
  callback := some fun arguments w =>
    (.bool true, (mcpPropertyListGetInt arguments (lit "level")).getD w)
  userOnly := false

def dimServer : McpServer Int32 := (addTools (mcpServerInit none) [dim]).2

theorem dimServer_reachable : Reachable dimServer := ⟨none, [dim], rfl⟩

def dimTo (id level : Int32) : ClientCall := ⟨id, lit "dim", [(lit "level", .int level)]⟩

theorem dimTo_exact (id level : Int32) : (dimTo id level).Exact [dim] := by
  intro tool htool _ p hp name hname a ha _
  obtain rfl := List.mem_singleton.mp htool
  obtain rfl := List.mem_singleton.mp hp
  obtain rfl := List.mem_singleton.mp ha
  exact Option.some.inj hname

theorem trueReply_strlen (id : Int32) : (CJsonLib.reference.print
    (resultReply id (contentJson CJsonLib.reference (.bool true)))).strlen < 2 ^ 32 := by
  have hP := CJsonLib.reference_printsCompactly
  have hid := strlen_id_le id
  have hlit : ∀ s : CStr, Json.IsPlain s →
      (CJsonLib.reference.print (.string s)).strlen = s.strlen + 2 := fun s => hP.strlen_string
  rw [strlen_resultReply hP, contentJson, contentEntry]
  simp only [hP.strlen_object, hP.strlen_array, List.map_cons, List.map_nil, List.sum_cons,
    List.sum_nil, List.length_cons, List.length_nil, if_true,
    show (CJsonLib.reference.print (.bool false)).strlen = 5 from rfl]
  simp (disch := decide) only [hlit]
  simp only [show (lit "content").strlen = 7 from rfl, show (lit "type").strlen = 4 from rfl,
    show (lit "text").strlen = 4 from rfl, show (lit "true").strlen = 4 from rfl,
    show (lit "isError").strlen = 7 from rfl]
  omega

theorem payloads_doToolCall (hL : L.RoundTrips) {server : McpServer W} {name : CStr} {tool : McpTool W}
    (hfind : mcpServerFindToolByHash server name = some tool)
    {callback : List McpProperty → W → McpReturnValue × W} (hcallback : tool.callback = some callback)
    (id : Int32) (arguments : Option CJson) (w : W) :
    let args := mcpServerParseArguments tool arguments
    payloads (mcpServerDoToolCall L server id name arguments w).1 = [L.print
      (if args.ok then resultReply id (contentJson L (callback args.parsed w).1)
      else errorReply id (message128
        (lit "Invalid argument: " ++ args.errorProperty.getD (lit "unknown"))))] := by
  intro args
  rw [mcpServerDoToolCall, hfind]
  dsimp only
  cases hok : args.ok with
  | false =>
    rw [if_pos (by simp)]
    rfl
  | true =>
    have hplain := contentJson_plain L (callback args.parsed w).1
    rw [if_neg (by simp), mcpToolCall, hcallback]
    dsimp only [mcpBuildContentFromReturn]
    rw [replyResult_eq hL id hplain]
    rfl

theorem errorReply_strlen (id : Int32) (text : CStr) :
    (CJsonLib.reference.print (errorReply id (message128 text))).strlen < 2 ^ 32 := by
  have hid := strlen_id_le id
  have hprint := CJsonLib.reference_escapesShortly.strlen_string_le (message128 text)
  have hcut : (message128 text).strlen ≤ 127 := (strlen_strncpy text 127).trans_le (min_le_left _ _)
  rw [strlen_errorReply CJsonLib.reference_printsCompactly]
  omega

theorem payloads_parseMessages {P : CStr → Prop} {server : McpServer W} {texts : List CStr}
    (h : ∀ text ∈ texts, ∀ w, ∀ payload ∈ payloads (mcpServerParseMessage L server text w).1,
      P payload) (w : W) :
    ∀ payload ∈ payloads (parseMessages L server texts w).1, P payload := by
  induction texts generalizing w with
  | nil => exact fun _ h => absurd h List.not_mem_nil
  | cons text rest ih =>
    obtain ⟨htext, hrest⟩ := List.forall_mem_cons.mp h
    rw [parseMessages, payloads_append]
    exact List.forall_mem_append.mpr ⟨htext w, ih hrest _⟩

theorem dim_fits (id level w : Int32) : ∀ payload ∈ payloads (mcpServerParseMessage
    CJsonLib.reference dimServer ((dimTo id level).text CJsonLib.reference) w).1,
    payload.strlen < 2 ^ 32 := by
  have hfind : mcpServerFindToolByHash dimServer (lit "dim") = some dim :=
    (find_eq_some dimServer_reachable.inStep).mpr ⟨List.mem_singleton.mpr rfl, rfl⟩
  have hcallback : dim.callback = some fun arguments w =>
    (.bool true, (mcpPropertyListGetInt arguments (lit "level")).getD w) := rfl
  rw [parseMessage_call CJsonLib.reference_roundTrips, dimTo,
    payloads_doToolCall CJsonLib.reference_roundTrips hfind hcallback]
  intro payload hpayload
  rw [List.mem_singleton.mp hpayload]
  split
  · exact trueReply_strlen id
  · exact errorReply_strlen id _

end MlinkDevice
