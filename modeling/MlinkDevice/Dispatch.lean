import Mathlib.Data.List.Forall2
import MlinkDevice.Pages

/-!
# One reply to each request

A message is a request when it parses to an object with a version, a method and an
id. Each request gets one reply, and nothing else gets any.
-/

open MlinkDevice.CStr

namespace MlinkDevice

variable {W : Type} {L : CJsonLib}

/-! ## Requests and replies -/

structure Request where
  method : CStr
  params : Option CJson
  id : Int32

/-- The request that a value is, if it is one. -/
def readRequest (json : CJson) : Option Request :=
  match json.getObjectItem (lit "jsonrpc") with
  | some (.string version) =>
    if json.isObject ∧ version = lit "2.0" then
      match json.getObjectItem (lit "method"), json.getObjectItem (lit "id") with
      | some (.string method), some (.number id) =>
        some { method, params := json.getObjectItem (lit "params"), id := CJson.valueint id }
      | _, _ => none
    else none
  | _ => none

def requestOf (L : CJsonLib) (message : CStr) : Option Request := (L.parse message).bind readRequest

/-- A payload that parses to a reply with that id, and a result or an error but not both. -/
structure IsReply (L : CJsonLib) (id : Int32) (payload : CStr) (reply : CJson) : Prop where
  parse : L.parse payload = some reply
  version : reply.member (lit "jsonrpc") = some (.string (lit "2.0"))
  id : reply.member (lit "id") = some (.number id.toInt)
  result_or_error : (reply.member (lit "result")).isSome = !(reply.member (lit "error")).isSome

/-- The request calls that tool, and its arguments pass the checks. -/
def IsCall (server : McpServer W) (r : Request) (tool : McpTool W) (arguments : List McpProperty) :
    Prop :=
  r.method = lit "tools/call" ∧ ∃ params, r.params = some params ∧
    params.getObjectItem (lit "name") = some (.string tool.name) ∧
    tool ∈ server.tools ∧ tool.callback.isSome ∧
    (∀ v, params.getObjectItem (lit "arguments") = some v → v.isObject = true) ∧
    (mcpServerParseArguments tool (params.getObjectItem (lit "arguments"))).ok = true ∧
    arguments = (mcpServerParseArguments tool (params.getObjectItem (lit "arguments"))).parsed

def serve (L : CJsonLib) (server : McpServer W) : List Request → W → List (Event W) × W
  | [], w => ([], w)
  | r :: rest, w =>
    let first := dispatch L server r.method r.params r.id w
    let others := serve L server rest first.2
    (first.1 ++ others.1, others.2)

/-! ## What a message does -/

theorem parseMessageJson_eq (server : McpServer W) (json : CJson) (w : W) :
    mcpServerParseMessageJson L server json w =
      match readRequest json with
      | none => ([], w)
      | some r => dispatch L server r.method r.params r.id w := by
  unfold mcpServerParseMessageJson readRequest
  cases hversion : json.getObjectItem (lit "jsonrpc") with
  | none => rfl
  | some version =>
    cases version with
    | string version =>
      by_cases hv : version = lit "2.0"
      · simp only [CJson.getObjectItem_object hversion, hv, ne_eq, not_true_eq_false, if_false,
          and_self, if_true]
        cases json.getObjectItem (lit "method") with
        | none => rfl
        | some method =>
          cases method with
          | string method =>
            cases json.getObjectItem (lit "id") with
            | none => rfl
            | some id => cases id <;> rfl
          | _ => rfl
      · simp only [hv, ne_eq, not_false_eq_true, if_true, and_false, if_false]
    | _ => rfl

theorem parseMessage_eq (server : McpServer W) (message : CStr) (w : W) :
    mcpServerParseMessage L server message w =
      match requestOf L message with
      | none => ([], w)
      | some r => dispatch L server r.method r.params r.id w := by
  unfold mcpServerParseMessage
  rw [requestOf]
  cases L.parse message with
  | none => rfl
  | some json => exact parseMessageJson_eq server json w

theorem parseMessages_eq (server : McpServer W) (messages : List CStr) (w : W) :
    parseMessages L server messages w = serve L server (messages.filterMap (requestOf L)) w := by
  induction messages generalizing w with
  | nil => rfl
  | cons message rest ih =>
    rw [parseMessages, parseMessage_eq]
    cases h : requestOf L message with
    | none =>
      rw [List.filterMap_cons_none h]
      exact ih w
    | some r =>
      rw [List.filterMap_cons_some h, serve]
      simp only [ih]

theorem readRequest_eq_some {json : CJson} {r : Request} (h : readRequest json = some r) :
    ∃ id, json.getObjectItem (lit "method") = some (.string r.method) ∧
      json.getObjectItem (lit "id") = some (.number id) ∧
      json.getObjectItem (lit "params") = r.params ∧ r.id = CJson.valueint id := by
  unfold readRequest at h
  split at h
  · split at h
    · split at h
      · rename_i id hmethod hid
        obtain rfl := Option.some.inj h
        exact ⟨id, hmethod, hid, rfl, rfl⟩
      · exact absurd h.symm (Option.some_ne_none r)
    · exact absurd h.symm (Option.some_ne_none r)
  · exact absurd h.symm (Option.some_ne_none r)

/-! ## Requests that a client builds -/

def requestJson (id : Int32) (method : CStr) (params : CJson) : CJson :=
  .object [
    (lit "jsonrpc", .string (lit "2.0")),
    (lit "id", .number id.toInt),
    (lit "method", .string method),
    (lit "params", params)]

theorem requestJson_plain (id : Int32) (method : CStr) {params : CJson} (h : params.Plain) :
    (requestJson id method params).Plain := by
  simp [requestJson, h]

theorem readRequest_requestJson (id : Int32) (method : CStr) (params : CJson) :
    readRequest (requestJson id method params) = some { method, params := some params, id } := by
  have hversion : (requestJson id method params).getObjectItem (lit "jsonrpc") =
    some (.string (lit "2.0")) := rfl
  have hmethod : (requestJson id method params).getObjectItem (lit "method") =
    some (.string method) := rfl
  have hid : (requestJson id method params).getObjectItem (lit "id") = some (.number id.toInt) := rfl
  have hparams : (requestJson id method params).getObjectItem (lit "params") = some params := rfl
  unfold readRequest
  rw [hversion]
  simp only [hmethod, hid, hparams, CJson.valueint_toInt]
  rw [if_pos ⟨rfl, trivial⟩]

theorem requestOf_requestJson (hL : L.RoundTrips) (id : Int32) (method : CStr) {params : CJson}
    (h : params.Plain) : requestOf L (L.print (requestJson id method params)) =
      some { method, params := some params, id } := by
  rw [requestOf, hL.parse_print _ (requestJson_plain id method h), Option.bind_some,
    readRequest_requestJson]

/-! ## Plain replies -/

theorem resultReply_plain {id : Int32} {result : CJson} (h : result.Plain) :
    (resultReply id result).Plain := by
  simp [resultReply, h]

theorem errorReply_plain (id : Int32) (message : CStr) : (errorReply id message).Plain := by
  simp [errorReply]

theorem initializeJson_plain (server : McpServer W) : (initializeJson server).Plain := by
  simp [initializeJson, mcpServerAddServerInfo]

theorem replyResult_eq (hL : L.RoundTrips) (id : Int32) {result : CJson} (h : result.Plain) :
    (mcpServerReplyResult L id (L.print result) : List (Event W)) =
      [.send (L.print (resultReply id result))] := by
  unfold mcpServerReplyResult
  rw [hL.parse_print _ h, Option.getD_some]

theorem resultReply_isReply (hL : L.RoundTrips) (id : Int32) {result : CJson} (h : result.Plain) :
    IsReply L id (L.print (resultReply id result)) (resultReply id result) where
  parse := hL.parse_print _ (resultReply_plain h)
  version := rfl
  id := rfl
  result_or_error := rfl

theorem errorReply_isReply (hL : L.RoundTrips) (id : Int32) (message : CStr) :
    IsReply L id (L.print (errorReply id message)) (errorReply id message) where
  parse := hL.parse_print _ (errorReply_plain id message)
  version := rfl
  id := rfl
  result_or_error := rfl

/-! ## Dispatch -/

theorem IsCall.unique {server : McpServer W} (hs : server.InStep) {r : Request}
    {tool tool' : McpTool W} {arguments arguments' : List McpProperty}
    (h : IsCall server r tool arguments) (h' : IsCall server r tool' arguments') :
    tool = tool' ∧ arguments = arguments' := by
  obtain ⟨-, params, hparams, hname, hmem, -, -, -, rfl⟩ := h
  obtain ⟨-, params', hparams', hname', hmem', -, -, -, rfl⟩ := h'
  obtain rfl : params = params' := by simpa [hparams] using hparams'
  have hsame : tool.name = tool'.name := by simpa [hname] using hname'
  obtain rfl := List.inj_on_of_nodup_map hs.names_nodup hmem hmem' hsame
  exact ⟨rfl, rfl⟩

theorem doToolCall_spec (hL : L.RoundTrips) {server : McpServer W} (hs : server.InStep) (id : Int32)
    (toolName : CStr) (arguments : Option CJson) (w : W) :
    (∃ message, (mcpServerDoToolCall L server id toolName arguments w).1 =
        [.send (L.print (errorReply id message))] ∧
      ∀ tool ∈ server.tools, tool.name = toolName → tool.callback.isSome →
        (mcpServerParseArguments tool arguments).ok = false) ∨
    (∃ tool value, (mcpServerDoToolCall L server id toolName arguments w).1 =
        [.call tool (mcpServerParseArguments tool arguments).parsed,
          .send (L.print (resultReply id (contentJson L value)))] ∧
      tool ∈ server.tools ∧ tool.name = toolName ∧ tool.callback.isSome ∧
      (mcpServerParseArguments tool arguments).ok = true) := by
  unfold mcpServerDoToolCall
  cases hfind : mcpServerFindToolByHash server toolName with
  | none =>
    refine .inl ⟨_, rfl, fun tool hmem hname => ?_⟩
    exact absurd hname ((find_eq_none hs).mp hfind tool hmem)
  | some tool =>
    obtain ⟨hmem, hname⟩ := (find_eq_some hs).mp hfind
    have honly : ∀ t ∈ server.tools, t.name = toolName → t = tool := fun t ht htool =>
      List.inj_on_of_nodup_map hs.names_nodup ht hmem (htool.trans hname.symm)
    cases hok : (mcpServerParseArguments tool arguments).ok with
    | false =>
      refine .inl ⟨_, by simp only [hok]; rfl, fun t ht htool _ => ?_⟩
      rw [honly t ht htool, hok]
    | true =>
      cases hcallback : tool.callback with
      | none =>
        refine .inl ⟨lit "Tool call failed", ?_, fun t ht htool hsome => ?_⟩
        · simp only [hok, mcpToolCall, hcallback]
          rfl
        · rw [honly t ht htool, hcallback] at hsome
          exact absurd hsome Bool.false_ne_true
      | some callback =>
        let value := (callback (mcpServerParseArguments tool arguments).parsed w).1
        refine .inr ⟨tool, value, ?_, hmem, hname, by simp [hcallback], hok⟩
        have hreply := replyResult_eq (W := W) hL id (contentJson_plain L value)
        simp only [hok, mcpToolCall, hcallback, mcpBuildContentFromReturn]
        exact congrArg (_ :: ·) hreply

theorem replyError_isReply (hL : L.RoundTrips) (id : Int32) (message : CStr) :
    ∃ payload reply, (mcpServerReplyError L id message : List (Event W)) = [.send payload] ∧
      IsReply L id payload reply :=
  ⟨_, _, rfl, errorReply_isReply hL id message⟩

theorem replyResult_isReply (hL : L.RoundTrips) (id : Int32) {result : CJson} (h : result.Plain) :
    ∃ payload reply, (mcpServerReplyResult L id (L.print result) : List (Event W)) = [.send payload] ∧
      IsReply L id payload reply :=
  ⟨_, _, replyResult_eq hL id h, resultReply_isReply hL id h⟩

/-- What one request makes the server do: a reply, and before it a call exactly when the
request is one. -/
def Answered (L : CJsonLib) (server : McpServer W) (r : Request) (events : List (Event W)) : Prop :=
  (∃ payload reply, events = [.send payload] ∧ IsReply L r.id payload reply ∧
    ∀ tool arguments, ¬IsCall server r tool arguments) ∨
  (∃ tool arguments payload reply, events = [.call tool arguments, .send payload] ∧
    IsReply L r.id payload reply ∧ (reply.member (lit "result")).isSome ∧
    IsCall server r tool arguments)

theorem callTool_answered (hL : L.RoundTrips) {server : McpServer W} (hs : server.InStep)
    (params : Option CJson) (id : Int32) (w : W) :
    Answered L server ⟨lit "tools/call", params, id⟩ (callTool L server params id w).1 := by
  have hfailed : ∀ message,
      (∀ tool arguments, ¬IsCall server ⟨lit "tools/call", params, id⟩ tool arguments) →
      Answered L server ⟨lit "tools/call", params, id⟩ (mcpServerReplyError L id message) := by
    intro message hno
    obtain ⟨payload, reply, hsend, hreply⟩ := replyError_isReply (W := W) hL id message
    exact .inl ⟨payload, reply, hsend, hreply, hno⟩
  unfold callTool
  cases params with
  | none => exact hfailed _ fun _ _ h => by simp [IsCall] at h
  | some params =>
    have hcall : ∀ tool arguments, IsCall server ⟨lit "tools/call", some params, id⟩ tool arguments ↔
        params.getObjectItem (lit "name") = some (.string tool.name) ∧
        tool ∈ server.tools ∧ tool.callback.isSome ∧
        (∀ v, params.getObjectItem (lit "arguments") = some v → v.isObject = true) ∧
        (mcpServerParseArguments tool (params.getObjectItem (lit "arguments"))).ok = true ∧
        arguments = (mcpServerParseArguments tool (params.getObjectItem (lit "arguments"))).parsed := by
      simp [IsCall]
    dsimp only
    split
    case h_2 hname =>
      exact hfailed _ fun tool _ h => hname tool.name ((hcall _ _).mp h).1
    case h_1 name hname =>
      by_cases hobject : (params.getObjectItem (lit "arguments")).all CJson.isObject = true
      case neg =>
        rw [if_neg hobject]
        refine hfailed _ fun _ _ h => hobject ?_
        rw [Option.all_eq_true]
        exact ((hcall _ _).mp h).2.2.2.1
      rw [if_pos hobject]
      rw [Option.all_eq_true] at hobject
      rcases doToolCall_spec hL hs id name (params.getObjectItem (lit "arguments")) w with
        ⟨message, hsend, hbad⟩ | ⟨tool, value, hsend, hmem, hsame, hcallback, hok⟩
      · rw [hsend]
        refine hfailed message fun tool arguments h => ?_
        obtain ⟨hname', hmem, hcallback, -, hok, -⟩ := (hcall _ _).mp h
        have hsame : tool.name = name := by simpa [hname] using hname'.symm
        rw [hbad tool hmem hsame hcallback] at hok
        exact Bool.noConfusion hok
      · rw [hsend]
        refine .inr ⟨tool, _, _, _, rfl, resultReply_isReply hL id (contentJson_plain L value), rfl, ?_⟩
        exact (hcall _ _).mpr ⟨hsame ▸ hname, hmem, hcallback, hobject, hok, rfl⟩

theorem dispatch_answered (hL : L.RoundTrips) {server : McpServer W} (hs : server.InStep)
    (r : Request) (w : W) :
    Answered L server r (dispatch L server r.method r.params r.id w).1 := by
  obtain ⟨method, params, id⟩ := r
  have hno : method ≠ lit "tools/call" → ∀ tool arguments,
      ¬IsCall server ⟨method, params, id⟩ tool arguments := fun hmethod _ _ h => hmethod h.1
  unfold dispatch
  by_cases hinit : method = lit "initialize"
  · obtain ⟨payload, reply, hsend, hreply⟩ :=
      replyResult_isReply (W := W) hL id (initializeJson_plain server)
    rw [if_pos hinit]
    exact .inl ⟨payload, reply, hsend, hreply, hno (by rw [hinit]; decide)⟩
  rw [if_neg hinit]
  by_cases hlist : method = lit "tools/list"
  · obtain ⟨payload, reply, hsend, hreply⟩ := replyResult_isReply (W := W) hL id
      (pageResult_plain (L := L) server (cursorOf params) (includeUserToolsOf params))
    rw [if_pos hlist, buildToolsList_eq hL]
    exact .inl ⟨payload, reply, hsend, hreply, hno (by rw [hlist]; decide)⟩
  rw [if_neg hlist]
  by_cases hcall : method = lit "tools/call"
  · rw [if_pos hcall]
    subst hcall
    exact callTool_answered hL hs params id w
  · obtain ⟨payload, reply, hsend, hreply⟩ := replyError_isReply (W := W) hL id
      (message128 (lit "Method not implemented: " ++ method))
    rw [if_neg hcall]
    exact .inl ⟨payload, reply, hsend, hreply, hno hcall⟩

theorem Answered.payloads {server : McpServer W} {r : Request} {events : List (Event W)}
    (h : Answered L server r events) : ∃ payload reply, payloads events = [payload] ∧
      IsReply L r.id payload reply ∧ (calls events ≠ [] → (reply.member (lit "result")).isSome) := by
  rcases h with ⟨payload, reply, rfl, hreply, -⟩ | ⟨tool, arguments, payload, reply, rfl, hreply, hr, -⟩
  · exact ⟨payload, reply, rfl, hreply, fun h => absurd rfl h⟩
  · exact ⟨payload, reply, rfl, hreply, fun _ => hr⟩

theorem Answered.calls {server : McpServer W} (hs : server.InStep) {r : Request}
    {events : List (Event W)} (h : Answered L server r events) :
    (calls events).length ≤ 1 ∧ ∀ tool arguments,
      calls events = [(tool, arguments)] ↔ IsCall server r tool arguments := by
  rcases h with ⟨payload, reply, rfl, -, hno⟩ | ⟨tool, arguments, payload, reply, rfl, -, -, hcall⟩
  · refine ⟨Nat.zero_le 1, fun tool arguments => ?_⟩
    exact ⟨fun h => absurd h.symm (List.cons_ne_nil _ _), fun h => absurd h (hno tool arguments)⟩
  · refine ⟨le_refl 1, fun tool' arguments' => ⟨fun h => ?_, fun h => ?_⟩⟩
    · obtain ⟨rfl, rfl⟩ : tool = tool' ∧ arguments = arguments' := by
        simpa [MlinkDevice.calls, Event.called] using h
      exact hcall
    · obtain ⟨rfl, rfl⟩ := hcall.unique hs h
      rfl

/-- **Run.** The replies of a run of requests, one for each and in their order. -/
theorem serve_replies (hL : L.RoundTrips) {server : McpServer W} (hs : server.InStep)
    (rs : List Request) (w : W) :
    List.Forall₂ (fun r payload => ∃ w' reply,
        payloads (dispatch L server r.method r.params r.id w').1 = [payload] ∧
        IsReply L r.id payload reply)
      rs (payloads (serve L server rs w).1) := by
  induction rs generalizing w with
  | nil => exact .nil
  | cons r rest ih =>
    obtain ⟨payload, reply, hpayload, hreply, -⟩ := (dispatch_answered hL hs r w).payloads
    rw [serve, payloads_append, hpayload, List.singleton_append]
    exact .cons ⟨w, reply, hpayload, hreply⟩ (ih _)

/-- A message that is no request does nothing. A request gets one reply, and calls a tool
exactly when it is a checked call of it. A run of messages sends the replies of its
requests, in their order. -/
theorem one_reply_each (hL : L.RoundTrips) {server : McpServer W} (hs : Reachable server) :
    (∀ message w, requestOf L message = none →
      mcpServerParseMessage L server message w = ([], w)) ∧
    (∀ message r w, requestOf L message = some r →
      let events := (mcpServerParseMessage L server message w).1
      (∃ payload reply, payloads events = [payload] ∧ IsReply L r.id payload reply ∧
        (calls events ≠ [] → (reply.member (lit "result")).isSome)) ∧
      (calls events).length ≤ 1 ∧
      ∀ tool arguments, calls events = [(tool, arguments)] ↔ IsCall server r tool arguments) ∧
    (∀ messages w,
      parseMessages L server messages w = serve L server (messages.filterMap (requestOf L)) w ∧
      List.Forall₂ (fun r payload => ∃ w' reply,
          payloads (dispatch L server r.method r.params r.id w').1 = [payload] ∧
          IsReply L r.id payload reply)
        (messages.filterMap (requestOf L)) (payloads (parseMessages L server messages w).1)) := by
  refine ⟨fun message w h => ?_, fun message r w h => ?_, fun messages w => ?_⟩
  · rw [parseMessage_eq, h]
  · have hanswered := dispatch_answered hL hs.inStep r w
    rw [parseMessage_eq, h]
    exact ⟨hanswered.payloads, hanswered.calls hs.inStep⟩
  · refine ⟨parseMessages_eq server messages w, ?_⟩
    rw [parseMessages_eq]
    exact serve_replies hL hs.inStep _ w

/-! ## A server with one tool -/

def ping : McpTool Unit where
  name := lit "ping"
  description := lit "answers"
  properties := []
  callback := some fun _ w => (.bool true, w)
  userOnly := false

def pingServer : McpServer Unit := (addTools (mcpServerInit none) [ping]).2

theorem pingServer_reachable : Reachable pingServer := ⟨none, [ping], rfl⟩

def pingCall : CJson :=
  requestJson 7 (lit "tools/call") (.object [(lit "name", .string (lit "ping"))])

theorem one_reply_each_ping : calls (mcpServerParseMessage CJsonLib.reference pingServer
    (CJsonLib.reference.print pingCall) ()).1 = [(ping, [])] := by
  have h := (one_reply_each CJsonLib.reference_roundTrips pingServer_reachable).2.1 _
    ⟨lit "tools/call", some (.object [(lit "name", .string (lit "ping"))]), 7⟩ ()
    (requestOf_requestJson CJsonLib.reference_roundTrips 7 _ (by simp))
  refine (h.2.2 ping []).mpr ⟨rfl, _, rfl, rfl, List.mem_singleton.mpr rfl, rfl, ?_, rfl, rfl⟩
  intro v hv
  exact absurd hv.symm (Option.some_ne_none v)

end MlinkDevice
