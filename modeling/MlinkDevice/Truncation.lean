import MlinkDevice.Arguments
import MlinkDevice.Json.Utf8
import MlinkDevice.Listing

/-!
# Texts in fixed-size buffers

The server name, the cursor and three error messages go through buffers of 64 or 128 bytes
on their way to a payload. The payload is UTF-8 unless such a buffer cuts a character.
-/

open MlinkDevice.CStr

namespace MlinkDevice

variable {W : Type} {L : CJsonLib}

/-! ## What is declared in UTF-8 -/

structure McpProperty.IsUtf8 (property : McpProperty) : Prop where
  name : ∀ name ∈ property.name, name.IsUtf8
  default : property.hasDefault = true → ∀ s, property.value = .string (some s) → s.IsUtf8

/-- The text of the result is UTF-8, wherever the callback put it. -/
def McpReturnValue.IsUtf8 : McpReturnValue → Prop
  | .bool _ | .int _ => True
  | .string s => ∀ s' ∈ s, s'.IsUtf8
  | .json j => ∀ v ∈ j, v.IsUtf8
  | .image data => ∀ encoded ∈ data, ∀ s ∈ encoded, s.IsUtf8

/-- A tool that is declared in UTF-8, and whose callback gives back UTF-8 when it is given it. -/
structure McpTool.IsUtf8 (tool : McpTool W) : Prop where
  name : tool.name.IsUtf8
  description : tool.description.IsUtf8
  properties : ∀ p ∈ tool.properties, p.IsUtf8
  callback : ∀ callback ∈ tool.callback, ∀ arguments w, (∀ p ∈ arguments, p.IsUtf8) →
    (callback arguments w).1.IsUtf8

/-! ## What a request makes the server cut -/

/-- The message about a tool that is not there, or about a property that does not pass. -/
def toolCallCuts (server : McpServer W) (name : CStr) (arguments : Option CJson) : List (CStr × ℕ) :=
  match server.tools.find? fun tool => tool.name == name with
  | none => [(lit "Unknown tool: " ++ name, 127)]
  | some tool => (blamed arguments tool.properties).toList.map fun p =>
      (lit "Invalid argument: " ++ p.name.getD (lit "unknown"), 127)

def callCuts (server : McpServer W) (params : CJson) : List (CStr × ℕ) :=
  match params.getObjectItem (lit "name") with
  | some (.string name) =>
    let arguments := params.getObjectItem (lit "arguments")
    if arguments.all CJson.isObject then toolCallCuts server name arguments else []
  | _ => []

/-- The text that the answer copies to a fixed-size buffer, if it does, and the number of
bytes that the buffer has room for. -/
def cuts (L : CJsonLib) (serverName : Option CStr) (server : McpServer W) (r : Request) :
    List (CStr × ℕ) :=
  if r.method = lit "initialize" then serverName.toList.map fun name => (name, 127)
  else if r.method = lit "tools/list" then
    (page L server (cursorOf r.params) (includeUserToolsOf r.params)).2.head?.toList.map fun tool =>
      (tool.name, 63)
  else if r.method = lit "tools/call" then r.params.toList.flatMap (callCuts server)
  else [(lit "Method not implemented: " ++ r.method, 127)]

/-! ## Trees -/

theorem errorReply_isUtf8_iff (id : Int32) (message : CStr) :
    (errorReply id message).IsUtf8 ↔ message.IsUtf8 := by
  simp (disch := decide) [errorReply]

theorem resultReply_isUtf8_iff (id : Int32) (result : CJson) :
    (resultReply id result).IsUtf8 ↔ result.IsUtf8 := by
  simp (disch := decide) [resultReply]

theorem initializeJson_isUtf8_iff (server : McpServer W) :
    (initializeJson server).IsUtf8 ↔ server.serverName.IsUtf8 := by
  unfold initializeJson mcpServerAddServerInfo
  split
  · simp (disch := decide)
  · rename_i hfirst
    obtain hempty := first_eq_zero.mp (not_not.mp hfirst)
    simp (disch := decide) [hempty]

theorem propertyMembers_isUtf8 {property : McpProperty} (h : property.IsUtf8) :
    (CJson.object (propertyMembers property)).IsUtf8 := by
  rw [CJson.isUtf8_object]
  unfold propertyMembers
  split
  · split_ifs <;> simp (disch := decide)
  · split_ifs <;> simp (disch := decide)
  · split
    · rename_i s hdefault hvalue
      simp (disch := decide) [h.default hdefault s hvalue]
    · simp (disch := decide)

theorem McpTool.IsUtf8.json {tool : McpTool W} (h : tool.IsUtf8) : tool.json.IsUtf8 := by
  have hname := h.name
  have hdescription := h.description
  have hprops : ∀ k v, (k, v) ∈ (schemaParts tool.properties).properties → k.IsUtf8 ∧ v.IsUtf8 := by
    rw [schemaParts_properties]
    intro k v hm
    simp only [List.mem_flatMap, Option.mem_toList, Option.map_eq_some_iff, Prod.mk.injEq] at hm
    obtain ⟨p, hp, name, hname, rfl, rfl⟩ := hm
    exact ⟨(h.properties p hp).name name hname, propertyMembers_isUtf8 (h.properties p hp)⟩
  have hreq : ∀ v ∈ (schemaParts tool.properties).required, v.IsUtf8 := by
    intro v hv
    simp only [schemaParts, List.mem_flatMap, Option.mem_toList, Option.map_eq_some_iff] at hv
    obtain ⟨p, hp, name, hname, rfl⟩ := hv
    rw [CJson.isUtf8_string]
    exact (h.properties p (List.mem_of_mem_filter hp)).name name hname
  unfold McpTool.json toolJson
  split_ifs <;> simp (disch := decide) [hname, hdescription]
  · exact ⟨hprops, hreq⟩
  · exact ⟨hprops, hreq⟩
  · exact hprops
  · exact hprops

theorem getD_isUtf8 {s : Option CStr} (h : ∀ s' ∈ s, s'.IsUtf8) : (s.getD ∅).IsUtf8 := by
  cases s with
  | none => exact isUtf8_empty
  | some s => exact h s rfl

theorem contentJson_isUtf8 (hL : L.CopiesStrings) {value : McpReturnValue} (h : value.IsUtf8) :
    (contentJson L value).IsUtf8 := by
  have hentry : (CJson.object (contentEntry L value)).IsUtf8 := by
    unfold contentEntry
    cases value with
    | bool b => cases b <;> simp (disch := decide)
    | int i =>
      have htext : (printfInt i).IsUtf8 := (CJsonLib.printInt_isAscii i.toInt).isUtf8
      simp (disch := decide) [htext]
    | string s => simp (disch := decide) [getD_isUtf8 h]
    | json j =>
      have htext : ((j.map L.print).getD ∅).IsUtf8 := by
        cases j with
        | none => exact isUtf8_empty
        | some v => exact (hL.print_isUtf8_iff v).mpr (h v rfl)
      simp (disch := decide) [htext]
    | image data =>
      cases data with
      | none => simp (disch := decide)
      | some encoded => simp (disch := decide) [getD_isUtf8 (h encoded rfl)]
  simpa (disch := decide) [contentJson] using hentry

/-! ## Arguments -/

theorem received_isUtf8 {arguments : Option CJson} (harguments : ∀ v ∈ arguments, v.IsUtf8)
    {property : McpProperty} (h : property.IsUtf8) : (received arguments property).IsUtf8 := by
  unfold received
  cases hvalue : argumentOf arguments property with
  | none => exact h
  | some value =>
    obtain ⟨v, hv, hitem⟩ := Option.bind_eq_some_iff.mp hvalue
    obtain ⟨name, -, hitem⟩ := Option.bind_eq_some_iff.mp hitem
    have hvalue := (harguments v hv).getObjectItem hitem
    cases value with
    | string s =>
      refine ⟨h.name, fun _ s' hs' => ?_⟩
      obtain rfl : s = s' := by simpa [stored] using hs'
      exact (CJson.isUtf8_string s).mp hvalue
    | bool b => exact ⟨h.name, fun _ s hs => by simp [stored] at hs⟩
    | number q => exact ⟨h.name, fun _ s hs => by simp [stored] at hs⟩
    | _ => exact h

theorem readRequest_isUtf8 {json : CJson} {r : Request} (h : json.IsUtf8)
    (hread : readRequest json = some r) : r.method.IsUtf8 ∧ ∀ params ∈ r.params, params.IsUtf8 := by
  obtain ⟨id, hmethod, -, hparams, -⟩ := readRequest_eq_some hread
  refine ⟨(CJson.isUtf8_string _).mp (h.getObjectItem hmethod), fun params hp => ?_⟩
  exact h.getObjectItem (hparams.trans hp)

/-! ## Replies -/

/-- Every payload is UTF-8. -/
def SendsUtf8 (events : List (Event W)) : Prop := ∀ payload ∈ payloads events, payload.IsUtf8

theorem sendsUtf8_append (xs ys : List (Event W)) :
    SendsUtf8 (xs ++ ys) ↔ SendsUtf8 xs ∧ SendsUtf8 ys := by
  unfold SendsUtf8
  rw [payloads_append, List.forall_mem_append]

theorem replyError_sendsUtf8_iff (hL : L.CopiesStrings) (id : Int32) (message : CStr) :
    SendsUtf8 (mcpServerReplyError L id message : List (Event W)) ↔ message.IsUtf8 := by
  have hpayload : payloads (mcpServerReplyError L id message : List (Event W)) =
    [L.print (errorReply id message)] := rfl
  unfold SendsUtf8
  rw [hpayload, List.forall_mem_singleton, hL.print_isUtf8_iff, errorReply_isUtf8_iff]

theorem replyResult_sendsUtf8_iff (hL : L.CopiesStrings) (hR : L.RoundTrips) (id : Int32)
    {result : CJson} (h : result.Plain) :
    SendsUtf8 (mcpServerReplyResult L id (L.print result) : List (Event W)) ↔ result.IsUtf8 := by
  rw [replyResult_eq hR id h]
  change (∀ payload ∈ [L.print (resultReply id result)], payload.IsUtf8) ↔ _
  rw [List.forall_mem_singleton, hL.print_isUtf8_iff, resultReply_isUtf8_iff]

theorem replyMessage_sendsUtf8_iff (hL : L.CopiesStrings) (id : Int32) {words text : CStr}
    (hwords : words.IsAscii) (htext : text.IsUtf8) :
    SendsUtf8 (mcpServerReplyError L id (message128 (words ++ text)) : List (Event W)) ↔
      (words ++ text).CutsClean 127 := by
  rw [replyError_sendsUtf8_iff hL, message128, strncpy_isUtf8_iff]
  exact (ascii_append_isUtf8_iff hwords text).mpr htext

theorem pageJson_isUtf8_iff {tools : List CJson} (h : ∀ v ∈ tools, v.IsUtf8) (cursor : CStr) :
    (pageJson tools cursor).IsUtf8 ↔ cursor.IsUtf8 := by
  unfold pageJson
  split
  · simp (disch := decide)
    exact fun _ => h
  · rename_i hfirst
    rw [first_eq_zero.mp (not_not.mp hfirst)]
    simp (disch := decide)
    exact h

theorem pageResult_isUtf8_iff {server : McpServer W} (h : ∀ tool ∈ server.tools, tool.IsUtf8)
    (cursor : Option CStr) (includeUserTools : Bool) :
    (pageResult L server cursor includeUserTools).IsUtf8 ↔
      ∀ tool ∈ (page L server cursor includeUserTools).2.head?, tool.name.CutsClean 63 := by
  have hutf8 : ∀ tool ∈ (page L server cursor includeUserTools).1 ++
      (page L server cursor includeUserTools).2, tool.IsUtf8 := fun tool htool =>
    h tool (List.mem_of_mem_filter ((page_suffix server cursor includeUserTools).mem htool))
  obtain ⟨htaken, hleft⟩ := List.forall_mem_append.mp hutf8
  unfold pageResult
  rw [pageJson_isUtf8_iff (List.forall_mem_map.mpr fun t ht => (htaken t ht).json), cursorAt]
  cases hhead : (page L server cursor includeUserTools).2.head? with
  | none => simp
  | some tool =>
    simpa using strncpy_isUtf8_iff (hleft tool (List.mem_of_mem_head? hhead)).name 63

/-! ## Requests -/

theorem replyContent_sendsUtf8 (hL : L.CopiesStrings) (hR : L.RoundTrips) (id : Int32)
    {value : McpReturnValue} (h : value.IsUtf8) :
    SendsUtf8 (mcpServerReplyResult L id (mcpBuildContentFromReturn L value) : List (Event W)) :=
  (replyResult_sendsUtf8_iff hL hR id (contentJson_plain L value)).mpr (contentJson_isUtf8 hL h)

theorem doToolCall_sendsUtf8_iff (hL : L.CopiesStrings) (hR : L.RoundTrips) {server : McpServer W}
    (hs : server.InStep) (h : ∀ tool ∈ server.tools, tool.IsUtf8) (id : Int32) {name : CStr}
    (hname : name.IsUtf8) {arguments : Option CJson} (harguments : ∀ v ∈ arguments, v.IsUtf8) (w : W) :
    SendsUtf8 (mcpServerDoToolCall L server id name arguments w).1 ↔
      ∀ c ∈ toolCallCuts server name arguments, c.1.CutsClean c.2 := by
  unfold mcpServerDoToolCall toolCallCuts
  rw [find_eq hs]
  cases hfind : server.tools.find? fun tool => tool.name == name with
  | none => simpa using replyMessage_sendsUtf8_iff hL id (by decide) hname
  | some tool =>
    have htool := h tool (List.mem_of_find?_eq_some hfind)
    cases hblamed : blamed arguments tool.properties with
    | some p =>
      have hok : (mcpServerParseArguments tool arguments).ok = false := by
        rw [← Bool.not_eq_true, parseArguments_ok_iff, ← blamed_eq_none, hblamed]
        exact Option.some_ne_none p
      have hp : (p.name.getD (lit "unknown")).IsUtf8 := by
        cases hname : p.name with
        | none => exact IsAscii.isUtf8 (by decide)
        | some name => exact (htool.properties p (mem_of_blamed hblamed)).name name hname
      simp only [hok, parseArguments_blames, hblamed]
      simpa using replyMessage_sendsUtf8_iff hL id (by decide) hp
    | none =>
      have hreceived : ∀ p ∈ tool.properties.map (received arguments), p.IsUtf8 :=
        List.forall_mem_map.mpr fun p hp => received_isUtf8 harguments (htool.properties p hp)
      simp only [parseArguments_passes (blamed_eq_none.mp hblamed), hblamed, mcpToolCall, Bool.not_true,
        Bool.false_eq_true, if_false, Option.toList_none, List.map_nil, List.not_mem_nil,
        IsEmpty.forall_iff, implies_true, iff_true]
      cases hcallback : tool.callback with
      | none =>
        have hmessage : (lit "Tool call failed").IsAscii := by decide
        exact (replyError_sendsUtf8_iff hL id _).mpr hmessage.isUtf8
      | some callback =>
        have hvalue := htool.callback callback hcallback _ w hreceived
        exact (sendsUtf8_append _ _).mpr
          ⟨List.forall_mem_nil _, replyContent_sendsUtf8 hL hR id hvalue⟩

theorem callTool_sendsUtf8_iff (hL : L.CopiesStrings) (hR : L.RoundTrips) {server : McpServer W}
    (hs : server.InStep) (h : ∀ tool ∈ server.tools, tool.IsUtf8) {params : Option CJson}
    (hparams : ∀ v ∈ params, v.IsUtf8) (id : Int32) (w : W) :
    SendsUtf8 (callTool L server params id w).1 ↔
      ∀ c ∈ params.toList.flatMap (callCuts server), c.1.CutsClean c.2 := by
  have hplain : ∀ {message : CStr}, message.IsAscii →
      SendsUtf8 (mcpServerReplyError L id message : List (Event W)) :=
    fun hmessage => (replyError_sendsUtf8_iff hL id _).mpr hmessage.isUtf8
  unfold callTool
  cases params with
  | none => simpa using hplain (by decide)
  | some params =>
    have hparams := hparams params rfl
    simp only [Option.toList_some, List.flatMap_singleton, callCuts]
    cases hitem : params.getObjectItem (lit "name") with
    | none => simpa using hplain (by decide)
    | some v =>
      cases v with
      | string name =>
        have hname := (CJson.isUtf8_string name).mp (hparams.getObjectItem hitem)
        dsimp only
        split
        · exact doToolCall_sendsUtf8_iff hL hR hs h id hname (fun v hv => hparams.getObjectItem hv) w
        · simpa using hplain (by decide)
      | _ => simpa using hplain (by decide)

theorem init_serverName_isUtf8_iff {serverName : Option CStr}
    (h : ∀ name ∈ serverName, name.IsUtf8) :
    (mcpServerInit serverName : McpServer W).serverName.IsUtf8 ↔
      ∀ name ∈ serverName, name.CutsClean 127 := by
  cases serverName with
  | none => simp (disch := decide) [mcpServerInit]
  | some name =>
    have hname := strncpy_isUtf8_iff (h name rfl) 127
    by_cases hfirst : name.first = 0
    · obtain rfl := first_eq_zero.mp hfirst
      have hempty : (∅ : CStr).CutsClean 127 := hname.mp (by decide)
      simpa (disch := decide) [mcpServerInit, hfirst] using hempty
    · simpa [mcpServerInit, hfirst] using hname

/-- **Step.** The payload of a request is UTF-8 exactly when its text is cut clean. -/
theorem dispatch_sendsUtf8_iff (hL : L.CopiesStrings) (hR : L.RoundTrips) {serverName : Option CStr}
    (hserverName : ∀ name ∈ serverName, name.IsUtf8) {server : McpServer W}
    (hserver : server.serverName = (mcpServerInit serverName : McpServer W).serverName)
    (hs : server.InStep) (h : ∀ tool ∈ server.tools, tool.IsUtf8) {r : Request}
    (hmethod : r.method.IsUtf8) (hparams : ∀ v ∈ r.params, v.IsUtf8) (w : W) :
    SendsUtf8 (dispatch L server r.method r.params r.id w).1 ↔
      ∀ c ∈ cuts L serverName server r, c.1.CutsClean c.2 := by
  unfold dispatch cuts
  split_ifs
  · rw [mcpServerBuildInitializeResult, replyResult_sendsUtf8_iff hL hR _ (initializeJson_plain server),
      initializeJson_isUtf8_iff, hserver, init_serverName_isUtf8_iff hserverName]
    simp
  · rw [buildToolsList_eq hR]
    simp only
    rw [replyResult_sendsUtf8_iff hL hR _ (pageResult_plain server _ _), pageResult_isUtf8_iff h]
    simp
  · exact callTool_sendsUtf8_iff hL hR hs h hparams r.id w
  · simpa using replyMessage_sendsUtf8_iff hL r.id (by decide) hmethod

/-! ## Any request text -/

/-- Every payload is UTF-8 exactly when no fixed-size buffer cuts a character of its text. -/
theorem payloads_utf8_iff (hL : L.CopiesStrings) (hR : L.RoundTrips) (hU : L.ReadsUtf8)
    {serverName : Option CStr} (hserverName : ∀ name ∈ serverName, name.IsUtf8)
    {calls : List (McpTool W)} (hcalls : ∀ tool ∈ calls, tool.IsUtf8) {message : CStr}
    (hmessage : message.IsUtf8) (w : W) :
    let server := (addTools (mcpServerInit serverName) calls).2
    (∀ payload ∈ payloads (mcpServerParseMessage L server message w).1, payload.IsUtf8) ↔
      ∀ r, requestOf L message = some r →
        ∀ c ∈ cuts L serverName server r, c.1.CutsClean c.2 := by
  intro server
  have htools : ∀ tool ∈ server.tools, tool.IsUtf8 := fun tool htool => hcalls tool (addTools_mem htool)
  have hname : server.serverName = (mcpServerInit serverName : McpServer W).serverName :=
    addTools_serverName _ calls
  rw [parseMessage_eq]
  cases hr : requestOf L message with
  | none => simp [payloads]
  | some r =>
    obtain ⟨json, hparse, hread⟩ := Option.bind_eq_some_iff.mp hr
    obtain ⟨hmethod, hparams⟩ := readRequest_isUtf8 (hU.parse_isUtf8 _ _ hmessage hparse) hread
    have hs : server.InStep := addTools_inStep (init_inStep serverName) calls
    have hstep := dispatch_sendsUtf8_iff hL hR hserverName hname hs htools hmethod hparams w
    simp only [Option.some.injEq, forall_eq']
    exact hstep

/-- The name is one Chinese character of three bytes. -/
def lamp : McpTool Unit := { ping with name := ⟨[0xE7, 0x81, 0xAF], by decide⟩ }

theorem lamp_isUtf8 : lamp.IsUtf8 where
  name := by decide
  description := by decide
  properties := List.forall_mem_nil _
  callback := by
    rintro callback hcallback arguments w -
    obtain rfl := Option.some.inj hcallback
    trivial

theorem payloads_utf8_iff_lamp :
    SendsUtf8 (mcpServerParseMessage CJsonLib.referenceUtf8
      (addTools (mcpServerInit (some lamp.name)) [lamp]).2
      (CJsonLib.referenceUtf8.print (requestJson 1 (lit "initialize") (.object []))) ()).1 := by
  have hmessage : (CJsonLib.referenceUtf8.print
      (requestJson 1 (lit "initialize") (.object []))).IsUtf8 := by
    rw [CJsonLib.referenceUtf8_copiesStrings.print_isUtf8_iff]
    simp (disch := decide) [requestJson]
  refine (payloads_utf8_iff CJsonLib.referenceUtf8_copiesStrings CJsonLib.referenceUtf8_roundTrips
    CJsonLib.referenceUtf8_readsUtf8 ?_ ?_ hmessage ()).mpr ?_
  · rintro name hname
    obtain rfl := Option.some.inj hname
    exact lamp_isUtf8.name
  · exact List.forall_mem_singleton.mpr lamp_isUtf8
  · intro r hr
    rw [requestOf_requestJson CJsonLib.referenceUtf8_roundTrips _ _ (by simp)] at hr
    obtain rfl := Option.some.inj hr
    exact List.forall_mem_singleton.mpr (Utf8.startsAt_of_length_le (by decide))

/-- 35 times the first character of the Chinese word for message. -/
def longMethod : CStr := ⟨(List.replicate 35 [0xE6, 0xB6, 0x88]).flatten, by decide⟩

theorem longMethod_isUtf8 : longMethod.IsUtf8 := by decide

/-- The method is not known, and the message about it ends within its last character. -/
theorem long_method_cut :
    let message := CJsonLib.referenceUtf8.print (requestJson 1 longMethod (.object []))
    message.IsUtf8 ∧ ¬ ∀ payload ∈ payloads (mcpServerParseMessage CJsonLib.referenceUtf8
      (addTools (mcpServerInit none) ([] : List (McpTool Unit))).2 message ()).1, payload.IsUtf8 := by
  have hutf8 := longMethod_isUtf8
  constructor
  · rw [CJsonLib.referenceUtf8_copiesStrings.print_isUtf8_iff]
    simp (disch := decide) [requestJson, hutf8]
  · rw [parseMessage_eq, requestOf_requestJson CJsonLib.referenceUtf8_roundTrips _ _ (by simp)]
    intro hall
    have hclean := (replyMessage_sendsUtf8_iff (W := Unit) CJsonLib.referenceUtf8_copiesStrings 1
      (by decide) hutf8).mp hall
    exact absurd (hclean 0xB6 (by decide)) (by decide)

end MlinkDevice
