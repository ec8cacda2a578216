import MlinkDevice.Dispatch
import MlinkDevice.Json.Schema
import MlinkDevice.Json.Stream
import MlinkDevice.Writers

/-!
# What a server sends

The hello of a new transport and the notifications, beside the replies. All of them are
handed to the transport and to the send callback, each if it is set.
-/

open MlinkDevice.CStr

namespace MlinkDevice

variable {W : Type} {L : CJsonLib}

/-! ## The hello -/

/-- The text that `snprintf` writes and whose length it returns. -/
def sessionText (now : Int64) (counter : UInt32) : CStr :=
  lit "mcp_" ++ Json.printInt now.toInt ++ lit "_" ++ Json.printInt counter.toNat

def sessionIdBufSize : ℕ := 64

/-- `mcp_generate_session_id`, where `memory` is the outcome of `malloc`: the copy of the buffer
and the counter. None is a copy from beyond the end of the buffer. -/
def mcpGenerateSessionId (memory : Bool) (now : Int64) (counter : UInt32) :
    Option (Option CStr × UInt32) :=
  let sessionIdBuf := (sessionText now counter).strncpy (sessionIdBufSize - 1)
  let len := (sessionText now counter).strlen
  if !memory then some (none, counter + 1)
  else if len + 1 ≤ sessionIdBufSize then some (some sessionIdBuf, counter + 1)
  else none

def helloJson (transportName : CStr) (sessionId : Option CStr) : CJson :=
  .object ([
    (lit "type", .string (lit "hello")),
    (lit "version", .string (lit "2024-11-05")),
    (lit "features", .object [(lit "mcp", .bool true)]),
    (lit "transport", .string transportName)] ++
    sessionId.toList.map fun sessionId => (lit "session_id", .string sessionId))

/-! ## Notifications -/

def notificationJson (level logger text : Option CStr) : CJson :=
  .object [
    (lit "jsonrpc", .string (lit "2.0")),
    (lit "method", .string (lit "notifications/message")),
    (lit "params", .object ([(lit "level", .string (level.getD (lit "info")))] ++
      (logger.toList.map fun logger => (lit "logger", .string logger)) ++
      text.toList.map fun text => (lit "data", .string text)))]

/-! ## The server and its two outlets -/

/-- The server, whether its transport and its send callback are set, the counter of the session
ids, and what the transport and the callback were given. `overrun` says that a session id was
copied from beyond its buffer. -/
structure Speaker (W : Type) where
  server : McpServer W
  transport : Bool := false
  sendCallback : Bool := false
  counter : UInt32 := 0
  world : W
  transportSend : List CStr := []
  callback : List CStr := []
  overrun : Bool := false

def mcpServerSend (s : Speaker W) (payload : CStr) : Speaker W :=
  { s with
    transportSend := if s.transport then s.transportSend ++ [payload] else s.transportSend
    callback := if s.sendCallback then s.callback ++ [payload] else s.callback }

def mcpServerSendHello (L : CJsonLib) (s : Speaker W) (transportName : CStr) (now : Int64)
    (memory : Bool) : Speaker W :=
  match mcpGenerateSessionId memory now s.counter with
  | none => { s with overrun := true }
  | some (sessionId, counter) =>
    mcpServerSend { s with counter } (L.print (helloJson transportName sessionId))

def mcpServerSendNotificationMessage (L : CJsonLib) (s : Speaker W) (level logger text : Option CStr) :
    Speaker W :=
  mcpServerSend s (L.print (notificationJson level logger text))

/-- A call of the application. Of a transport that is set it is known whether it took the
callback of the server. -/
inductive Saying (W : Type) where
  | setTransport (transport registered : Bool) (transportName : Option CStr) (now : Int64)
    (memory : Bool)
  | setSendCallback (callback : Bool)
  | notify (level logger text : Option CStr)
  | parse (message : CStr)
  | addTool (tool : McpTool W)
  | destroy

def Speaker.setTransport (L : CJsonLib) (s : Speaker W) (transport registered : Bool)
    (transportName : Option CStr) (now : Int64) (memory : Bool) : Speaker W :=
  let s := { s with transport }
  if transport && registered then
    match transportName with
    | some name => mcpServerSendHello L s name now memory
    | none => s
  else s

def Speaker.parse (L : CJsonLib) (s : Speaker W) (message : CStr) : Speaker W :=
  let done := mcpServerParseMessage L s.server message s.world
  (payloads done.1).foldl mcpServerSend { s with world := done.2 }

def Speaker.say (L : CJsonLib) (s : Speaker W) : Saying W → Speaker W
  | .setTransport transport registered transportName now memory =>
    s.setTransport L transport registered transportName now memory
  | .setSendCallback callback => { s with sendCallback := callback }
  | .notify level logger text => mcpServerSendNotificationMessage L s level logger text
  | .parse message => s.parse L message
  | .addTool tool => { s with server := (mcpServerAddTool .plenty s.server tool).2 }
  | .destroy => { s with transport := false, sendCallback := false }

/-! ## What a client hears -/

/-- What a payload says to a client. Of a reply it is whose reply it is. -/
inductive Utterance where
  | hello (transportName : CStr) (sessionId : Option CStr)
  | notification (level : CStr) (logger data : Option CStr)
  | reply (id : ℚ)
deriving DecidableEq

def stringMember (v : CJson) (name : CStr) : Option CStr := (v.member name).bind Json.stringItem

/-- How a client reads an object: without a version it is a hello, with an id it is a reply. -/
def readUtterance (v : CJson) : Option Utterance :=
  if v.member (lit "jsonrpc") = none then
    if stringMember v (lit "type") = some (lit "hello") then
      (stringMember v (lit "transport")).map fun transportName =>
        .hello transportName (stringMember v (lit "session_id"))
    else none
  else match v.member (lit "id") with
    | some (.number id) => some (.reply id)
    | _ =>
      if stringMember v (lit "method") = some (lit "notifications/message") then
        (v.member (lit "params")).bind fun params =>
          (stringMember params (lit "level")).map fun level =>
            .notification level (stringMember params (lit "logger")) (stringMember params (lit "data"))
      else none

/-- What the application says with a call. -/
def said (L : CJsonLib) (s : Speaker W) : Saying W → List Utterance
  | .setTransport true true (some transportName) now memory =>
    [.hello transportName (if memory then some (sessionText now s.counter) else none)]
  | .notify level logger text => [.notification (level.getD (lit "info")) logger text]
  | .parse message => (requestOf L message).toList.map fun r => .reply r.id.toInt
  | _ => []

/-- What was said while the outlet was set. -/
def heard (L : CJsonLib) (outlet : Speaker W → Bool) : Speaker W → List (Saying W) → List Utterance
  | _, [] => []
  | s, call :: rest =>
    (if outlet (s.say L call) then said L s call else []) ++ heard L outlet (s.say L call) rest

def Speaker.sayAll (L : CJsonLib) (s : Speaker W) (calls : List (Saying W)) : Speaker W :=
  calls.foldl (Speaker.say L) s

/-! ## One session id -/

theorem sessionText_strlen_le (now : Int64) (counter : UInt32) :
    (sessionText now counter).strlen ≤ 36 := by
  have hnow : (Json.printInt now.toInt).strlen ≤ 19 + 1 := by
    apply Json.strlen_printInt_le _ (by decide)
    have hmin := now.le_toInt
    have hmax := now.toInt_lt
    omega
  have hcounter : (Json.printInt counter.toNat).strlen ≤ 10 + 1 := by
    apply Json.strlen_printInt_le _ (by decide)
    have := counter.toNat_lt
    omega
  simp only [sessionText, strlen_append, show (lit "mcp_").strlen = 4 from rfl,
    show (lit "_").strlen = 1 from rfl]
  omega

theorem generateSessionId_eq (memory : Bool) (now : Int64) (counter : UInt32) :
    mcpGenerateSessionId memory now counter =
      some (if memory then some (sessionText now counter) else none, counter + 1) := by
  have hlength := sessionText_strlen_le now counter
  unfold mcpGenerateSessionId sessionIdBufSize
  rw [strncpy_of_le (by omega)]
  dsimp only
  rw [if_pos (show (sessionText now counter).strlen + 1 ≤ 64 by omega)]
  cases memory <;> rfl

theorem sessionText_inj {now now' : Int64} {counter counter' : UInt32} :
    sessionText now counter = sessionText now' counter' ↔ now = now' ∧ counter = counter' := by
  constructor
  · intro h
    have hbytes := congrArg CStr.bytes h
    simp only [sessionText, append_assoc, bytes_append, show (lit "_").bytes = [95] from rfl,
      List.append_cancel_left_eq, List.singleton_append] at hbytes
    have hnumber : ∀ i : ℤ, 95 ∉ (Json.printInt i).bytes := by
      intro i hmem
      exact absurd (Json.printInt_bytes i hmem) (by decide)
    rw [List.append_cons_inj_of_notMem (hnumber _) (hnumber _)] at hbytes
    obtain ⟨hnow, -, hcounter⟩ := hbytes
    have hnow := Json.printInt_injective (CStr.ext hnow)
    have hcounter := Json.printInt_injective (CStr.ext hcounter)
    exact ⟨Int64.toInt_inj.mp hnow, UInt32.toNat_inj.mp (by exact_mod_cast hcounter)⟩
  · rintro ⟨rfl, rfl⟩
    rfl

/-! ## One payload -/

/-- A client that parses the payload hears that, and a server finds no request in it. -/
structure Carries (L : CJsonLib) (payload : CStr) (v : CJson) (u : Utterance) : Prop where
  print : payload = L.print v
  plain : v.Plain
  object : v.isObject = true
  read : readUtterance v = some u
  silent : readRequest v = none

theorem hello_carries (L : CJsonLib) (transportName : CStr) (sessionId : Option CStr) :
    Carries L (L.print (helloJson transportName sessionId)) (helloJson transportName sessionId)
      (.hello transportName sessionId) := by
  refine ⟨rfl, ?_, rfl, ?_, ?_⟩ <;> cases sessionId
  · simp [helloJson]
  · simp [helloJson]
  all_goals rfl

theorem notification_carries (L : CJsonLib) (level logger text : Option CStr) :
    Carries L (L.print (notificationJson level logger text)) (notificationJson level logger text)
      (.notification (level.getD (lit "info")) logger text) := by
  refine ⟨rfl, ?_, rfl, ?_, ?_⟩ <;> cases logger <;> cases text
  all_goals first
    | rfl
    | simp [notificationJson]

theorem errorReply_carries (L : CJsonLib) (id : Int32) (message : CStr) :
    Carries L (L.print (errorReply id message)) (errorReply id message) (.reply id.toInt) :=
  ⟨rfl, errorReply_plain id message, rfl, rfl, rfl⟩

theorem resultReply_carries (L : CJsonLib) (id : Int32) {result : CJson} (h : result.Plain) :
    Carries L (L.print (resultReply id result)) (resultReply id result) (.reply id.toInt) :=
  ⟨rfl, resultReply_plain h, rfl, rfl, rfl⟩

/-- The events hand out one payload, and that is a reply with the id. -/
def SendsReply (L : CJsonLib) (id : Int32) (events : List (Event W)) : Prop :=
  ∃ payload v, payloads events = [payload] ∧ Carries L payload v (.reply id.toInt)

theorem replyError_sendsReply (L : CJsonLib) (id : Int32) (message : CStr) :
    SendsReply L id (mcpServerReplyError L id message : List (Event W)) :=
  ⟨_, _, rfl, errorReply_carries L id message⟩

theorem replyResult_sendsReply (hL : L.RoundTrips) (id : Int32) {result : CJson} (h : result.Plain) :
    SendsReply L id (mcpServerReplyResult L id (L.print result) : List (Event W)) := by
  rw [replyResult_eq hL id h]
  exact ⟨_, _, rfl, resultReply_carries L id h⟩

theorem doToolCall_sendsReply (hL : L.RoundTrips) {server : McpServer W} (hs : server.InStep)
    (id : Int32) (toolName : CStr) (arguments : Option CJson) (w : W) :
    SendsReply L id (mcpServerDoToolCall L server id toolName arguments w).1 := by
  rcases doToolCall_spec hL hs id toolName arguments w with
    ⟨message, hsend, -⟩ | ⟨tool, value, hsend, -⟩
  · rw [hsend]
    exact ⟨_, _, rfl, errorReply_carries L id message⟩
  · rw [hsend]
    exact ⟨_, _, rfl, resultReply_carries L id (contentJson_plain L value)⟩

theorem dispatch_sendsReply (hL : L.RoundTrips) {server : McpServer W} (hs : server.InStep)
    (r : Request) (w : W) :
    SendsReply L r.id (dispatch L server r.method r.params r.id w).1 := by
  unfold dispatch
  split_ifs
  · exact replyResult_sendsReply hL r.id (initializeJson_plain server)
  · rw [buildToolsList_eq hL]
    exact replyResult_sendsReply hL r.id (pageResult_plain server _ _)
  · unfold callTool
    split
    · exact replyError_sendsReply L r.id _
    · split
      · dsimp only
        split_ifs
        · exact doToolCall_sendsReply hL hs r.id _ _ w
        · exact replyError_sendsReply L r.id _
      · exact replyError_sendsReply L r.id _
  · exact replyError_sendsReply L r.id _

/-! ## One call -/

/-- The payloads say that, one each and in their order. -/
def Hears (L : CJsonLib) (sent : List CStr) (utterances : List Utterance) : Prop :=
  List.Forall₂ (fun payload u => ∃ v, Carries L payload v u) sent utterances

/-- What a run of calls hands to the outlets, and what stays as it is. -/
structure Speaks (L : CJsonLib) (s t : Speaker W) (onTransport onCallback : List Utterance) : Prop where
  inStep : t.server.InStep
  overrun : t.overrun = s.overrun
  transport : ∃ sent, t.transportSend = s.transportSend ++ sent ∧ Hears L sent onTransport
  callback : ∃ sent, t.callback = s.callback ++ sent ∧ Hears L sent onCallback

theorem speaks_silent (L : CJsonLib) {s t : Speaker W} (ht : t.server.InStep)
    (hoverrun : t.overrun = s.overrun) (htransport : t.transportSend = s.transportSend)
    (hcallback : t.callback = s.callback) : Speaks L s t [] [] :=
  ⟨ht, hoverrun, ⟨[], by rw [htransport, List.append_nil], .nil⟩,
    ⟨[], by rw [hcallback, List.append_nil], .nil⟩⟩

theorem Speaks.trans {s t u : Speaker W} {xs ys xs' ys' : List Utterance} (h : Speaks L s t xs ys)
    (h' : Speaks L t u xs' ys') : Speaks L s u (xs ++ xs') (ys ++ ys') := by
  obtain ⟨sent, hsent, hhears⟩ := h.transport
  obtain ⟨sent', hsent', hhears'⟩ := h'.transport
  obtain ⟨called, hcalled, hcallback⟩ := h.callback
  obtain ⟨called', hcalled', hcallback'⟩ := h'.callback
  refine ⟨h'.inStep, h'.overrun.trans h.overrun, ⟨sent ++ sent', ?_, ?_⟩, ⟨called ++ called', ?_, ?_⟩⟩
  · rw [hsent', hsent, List.append_assoc]
  · exact List.rel_append hhears hhears'
  · rw [hcalled', hcalled, List.append_assoc]
  · exact List.rel_append hcallback hcallback'

theorem speaks_send (s s' : Speaker W) (hs : s'.server.InStep) (hoverrun : s'.overrun = s.overrun)
    (htransport : s'.transportSend = s.transportSend) (hcallback : s'.callback = s.callback)
    {payload : CStr} {v : CJson} {u : Utterance} (h : Carries L payload v u) :
    let t := mcpServerSend s' payload
    Speaks L s t (if t.transport then [u] else []) (if t.sendCallback then [u] else []) := by
  have hsent : Hears L [payload] [u] := .cons ⟨v, h⟩ .nil
  unfold mcpServerSend
  refine ⟨hs, hoverrun, ?_, ?_⟩ <;> dsimp only <;> split
  · exact ⟨[payload], by rw [htransport], hsent⟩
  · exact ⟨[], by rw [htransport, List.append_nil], .nil⟩
  · exact ⟨[payload], by rw [hcallback], hsent⟩
  · exact ⟨[], by rw [hcallback, List.append_nil], .nil⟩

theorem setTransport_speaks (L : CJsonLib) {s : Speaker W} (hs : s.server.InStep)
    (transport registered : Bool) (transportName : Option CStr) (now : Int64) (memory : Bool) :
    let call := Saying.setTransport transport registered transportName now memory
    let t := s.say L call
    Speaks L s t (if t.transport then said L s call else [])
      (if t.sendCallback then said L s call else []) := by
  have hsilent : Speaks L s { s with transport } (if transport then [] else [])
      (if s.sendCallback then [] else []) := by
    rw [ite_self, ite_self]
    exact speaks_silent L hs rfl rfl rfl
  cases transport with
  | false => exact hsilent
  | true =>
    cases registered with
    | false => exact hsilent
    | true =>
      cases transportName with
      | none => exact hsilent
      | some name =>
        simp only [Speaker.say, Speaker.setTransport, Bool.and_true, if_true, mcpServerSendHello,
          generateSessionId_eq, said]
        exact speaks_send s { s with transport := true, counter := s.counter + 1 } hs rfl rfl rfl
          (hello_carries L name _)

theorem parse_speaks (hL : L.RoundTrips) {s : Speaker W} (hs : s.server.InStep) (message : CStr) :
    let call : Saying W := .parse message
    let t := s.say L call
    Speaks L s t (if t.transport then said L s call else [])
      (if t.sendCallback then said L s call else []) := by
  simp only [Speaker.say, Speaker.parse, said, parseMessage_eq]
  cases hr : requestOf L message with
  | none =>
    simp only [Option.toList_none, List.map_nil, ite_self]
    exact speaks_silent L hs rfl rfl rfl
  | some r =>
    obtain ⟨payload, v, hpayload, hcarries⟩ := dispatch_sendsReply hL hs r s.world
    simp only [hpayload]
    exact speaks_send s { s with world := (dispatch L s.server r.method r.params r.id s.world).2 } hs
      rfl rfl rfl hcarries

/-- **Step.** A call hands what it says to the outlets that are then set. -/
theorem say_speaks (hL : L.RoundTrips) {s : Speaker W} (hs : s.server.InStep) (call : Saying W) :
    let t := s.say L call
    Speaks L s t (if t.transport then said L s call else [])
      (if t.sendCallback then said L s call else []) := by
  have hsilent : ∀ t : Speaker W, Speaks L s t [] [] →
      Speaks L s t (if t.transport then [] else []) (if t.sendCallback then [] else []) := by
    intro t ht
    rwa [ite_self, ite_self]
  cases call with
  | setTransport => exact setTransport_speaks L hs ..
  | setSendCallback => exact hsilent _ (speaks_silent L hs rfl rfl rfl)
  | notify level logger text =>
    exact speaks_send s s hs rfl rfl rfl (notification_carries L level logger text)
  | parse message => exact parse_speaks hL hs message
  | addTool tool => exact hsilent _ (speaks_silent L (addTool_inStep hs tool) rfl rfl rfl)
  | destroy => exact hsilent _ (speaks_silent L hs rfl rfl rfl)

/-- **Run.** The outlets get what is said while they are set. -/
theorem sayAll_speaks (hL : L.RoundTrips) {s : Speaker W} (hs : s.server.InStep)
    (calls : List (Saying W)) :
    Speaks L s (s.sayAll L calls) (heard L (·.transport) s calls) (heard L (·.sendCallback) s calls) := by
  induction calls generalizing s with
  | nil => exact speaks_silent L hs rfl rfl rfl
  | cons call rest ih =>
    have hstep := say_speaks hL hs call
    exact hstep.trans (ih hstep.inStep)

/-! ## The stream -/

/-- The bytes that the transport writes for the payloads it is given. -/
def streamOf (sent : List CStr) : List UInt8 :=
  sent.flatMap fun payload => payload.bytes.take (transportSize payload)

def Speaker.start (serverName : Option CStr) (w : W) : Speaker W :=
  { server := mcpServerInit serverName, world := w }

theorem streamOf_eq {sent : List CStr} (hfits : ∀ payload ∈ sent, payload.strlen < 2 ^ 32) :
    streamOf sent = sent.flatMap CStr.bytes := by
  unfold streamOf
  refine List.flatMap_congr fun payload hpayload => ?_
  rw [transportSize, Nat.mod_eq_of_lt (hfits payload hpayload)]
  exact List.take_of_length_le le_rfl

theorem Hears.exists_values {sent : List CStr} {us : List Utterance} (h : Hears L sent us) :
    ∃ vs : List CJson, sent = vs.map L.print ∧ (∀ v ∈ vs, v.Plain ∧ v.isObject = true ∧ readRequest v = none) ∧
      vs.map readUtterance = us.map some := by
  induction h with
  | nil => exact ⟨[], rfl, fun _ h => absurd h List.not_mem_nil, rfl⟩
  | cons hcarries _ ih =>
    obtain ⟨v, hv⟩ := hcarries
    obtain ⟨vs, rfl, hvs, hread⟩ := ih
    refine ⟨v :: vs, by rw [hv.print, List.map_cons], ?_, by rw [List.map_cons, hv.read, hread]; rfl⟩
    exact List.forall_mem_cons.mpr ⟨⟨hv.plain, hv.object, hv.silent⟩, hvs⟩

theorem Hears.readStream (hL : L.RoundTrips) (hP : L.PrintsCompactly) (hI : L.RejectsIncomplete)
    {sent : List CStr} {us : List Utterance} (h : Hears L sent us) :
    (L.readStream (sent.flatMap CStr.bytes)).pending = [] ∧
    (L.readStream (sent.flatMap CStr.bytes)).frames.map L.print = sent ∧
    (L.readStream (sent.flatMap CStr.bytes)).frames.map readUtterance = us.map some ∧
    ∀ part, part <+: sent.flatMap CStr.bytes →
      ∃ n, (L.readStream part).frames.map L.print = sent.take n ∧
        (L.readStream part).frames.map readUtterance = (us.take n).map some := by
  obtain ⟨vs, rfl, hvs, hread⟩ := h.exists_values
  obtain ⟨hall, hpart⟩ := CJsonLib.readStream_printed hL hP hI fun v hv =>
    ⟨(hvs v hv).1, (hvs v hv).2.1⟩
  refine ⟨by rw [hall], by rw [hall], by rw [hall, hread], fun part hbegins => ?_⟩
  obtain ⟨n, hframes⟩ := hpart part hbegins
  exact ⟨n, by rw [hframes, List.map_take], by rw [hframes, List.map_take, hread, List.map_take]⟩

theorem Hears.parse (hL : L.RoundTrips) {sent : List CStr} {us : List Utterance} (h : Hears L sent us) :
    (sent.map fun payload => (L.parse payload).bind readUtterance) = us.map some := by
  obtain ⟨vs, hsent, hvs, hread⟩ := h.exists_values
  rw [hsent, List.map_map, ← hread]
  refine List.map_congr_left fun v hv => ?_
  simp only [Function.comp_apply, hL.parse_print v (hvs v hv).1, Option.bind_some]

/-- From its start on, a server's outlets have what was said while they were set. -/
theorem sayAll_hears (hL : L.RoundTrips) (serverName : Option CStr) (w : W) (calls : List (Saying W)) :
    let start := Speaker.start serverName w
    let s := start.sayAll L calls
    Hears L s.transportSend (heard L (·.transport) start calls) ∧
      Hears L s.callback (heard L (·.sendCallback) start calls) ∧ s.overrun = false := by
  intro start s
  have hspeaks := sayAll_speaks hL (s := start) (init_inStep serverName) calls
  obtain ⟨sent, hsent, hhears⟩ := hspeaks.transport
  obtain ⟨called, hcalled, hcallback⟩ := hspeaks.callback
  have hsent : s.transportSend = sent := hsent
  have hcalled : s.callback = called := hcalled
  exact ⟨hsent ▸ hhears, hcalled ▸ hcallback, hspeaks.overrun⟩

/-- A client that gathers bytes until they parse gets the values whose prints were handed over, and
hears what was said while the transport was set, wherever the stream is cut. The send callback gets
what was said while it was set. No session id is copied from beyond its buffer. -/
theorem stream_reads_back (hL : L.RoundTrips) (hP : L.PrintsCompactly) (hI : L.RejectsIncomplete)
    (serverName : Option CStr) (w : W) (calls : List (Saying W))
    (hfits : ∀ payload ∈ ((Speaker.start serverName w).sayAll L calls).transportSend,
      payload.strlen < 2 ^ 32) :
    let start := Speaker.start serverName w
    let s := start.sayAll L calls
    let stream := streamOf s.transportSend
    let onTransport := heard L (·.transport) start calls
    (L.readStream stream).pending = [] ∧
    (L.readStream stream).frames.map L.print = s.transportSend ∧
    (L.readStream stream).frames.map readUtterance = onTransport.map some ∧
    (∀ part, part <+: stream →
      ∃ n, (L.readStream part).frames.map L.print = s.transportSend.take n ∧
        (L.readStream part).frames.map readUtterance = (onTransport.take n).map some) ∧
    (s.callback.map fun payload => (L.parse payload).bind readUtterance) =
      (heard L (·.sendCallback) start calls).map some ∧
    s.overrun = false := by
  intro start s stream onTransport
  obtain ⟨htransport, hcallback, hoverrun⟩ := sayAll_hears hL serverName w calls
  obtain ⟨hpending, hvalues, hframes, hbegins⟩ := htransport.readStream hL hP hI
  rw [← streamOf_eq hfits] at hpending hvalues hframes hbegins
  exact ⟨hpending, hvalues, hframes, hbegins, hcallback.parse hL, hoverrun⟩

/-- A transport without an id for its session, a notification for both outlets, and one after the
end. -/
def shortTalk : List (Saying Unit) :=
  [.setTransport true true (some (lit "tcp")) 0 false, .setSendCallback true,
    .notify none none (some (lit "up")), .destroy, .notify none none none]

theorem stream_reads_back_short :
    let s := (Speaker.start none ()).sayAll CJsonLib.reference shortTalk
    (CJsonLib.reference.readStream (streamOf s.transportSend)).frames.map readUtterance =
      [some (.hello (lit "tcp") none), some (.notification (lit "info") none (some (lit "up")))] ∧
    (s.callback.map fun payload => (CJsonLib.reference.parse payload).bind readUtterance) =
      [some (.notification (lit "info") none (some (lit "up")))] := by
  intro s
  have h := stream_reads_back CJsonLib.reference_roundTrips CJsonLib.reference_printsCompactly
    CJsonLib.reference_rejectsIncomplete none () shortTalk (by decide)
  exact ⟨h.2.2.1, h.2.2.2.2.1⟩

/-! ## The session ids of a process -/

/-- The time of a hello, and whether it gets memory for its id. -/
def Saying.hello : Saying W → Option (Int64 × Bool)
  | .setTransport true true (some _) now memory => some (now, memory)
  | _ => none

def Utterance.sessionId : Utterance → Option (Option CStr)
  | .hello _ sessionId => some sessionId
  | _ => none

/-- The id of the hello that finds the counter there. -/
def idOf (hello : Int64 × Bool) (counter : UInt32) : Option CStr :=
  if hello.2 then some (sessionText hello.1 counter) else none

def heardIds (L : CJsonLib) (s : Speaker W) (calls : List (Saying W)) : List (Option CStr) :=
  (heard L (·.transport) s calls).filterMap Utterance.sessionId

theorem foldl_send_counter (sent : List CStr) (s : Speaker W) :
    (sent.foldl mcpServerSend s).counter = s.counter := by
  induction sent generalizing s with
  | nil => rfl
  | cons payload sent ih => exact ih (mcpServerSend s payload)

theorem heardIds_cons (s : Speaker W) (call : Saying W) (rest : List (Saying W)) :
    heardIds L s (call :: rest) =
      (if (s.say L call).transport then said L s call else []).filterMap Utterance.sessionId ++
        heardIds L (s.say L call) rest :=
  List.filterMap_append ..

theorem say_hello {call : Saying W} {hello : Int64 × Bool} (h : call.hello = some hello)
    (s : Speaker W) : (s.say L call).counter = s.counter + 1 ∧
      (if (s.say L call).transport then said L s call else []).filterMap Utterance.sessionId =
        [idOf hello s.counter] := by
  unfold Saying.hello at h
  split at h
  · obtain rfl := Option.some.inj h
    simp only [Speaker.say, Speaker.setTransport, Bool.and_true, if_true, mcpServerSendHello,
      generateSessionId_eq, mcpServerSend]
    exact ⟨trivial, rfl⟩
  · exact absurd h.symm (Option.some_ne_none hello)

theorem say_other {call : Saying W} (h : call.hello = none) (s : Speaker W) :
    (s.say L call).counter = s.counter ∧
      (if (s.say L call).transport then said L s call else []).filterMap Utterance.sessionId = [] := by
  have hsilent : ∀ (transport : Bool) (us : List Utterance), us.filterMap Utterance.sessionId = [] →
      (if transport then us else []).filterMap Utterance.sessionId = [] := by
    intro transport us hus
    cases transport
    · rfl
    · exact hus
  cases call with
  | setTransport transport registered transportName now memory =>
    cases transport <;> cases registered <;> cases transportName <;>
      first
        | exact ⟨rfl, rfl⟩
        | exact absurd h (Option.some_ne_none _)
  | parse message =>
    refine ⟨foldl_send_counter _ _, hsilent _ _ ?_⟩
    simp [said, Utterance.sessionId]
  | notify => exact ⟨rfl, hsilent _ _ rfl⟩
  | setSendCallback => exact ⟨rfl, hsilent _ _ rfl⟩
  | addTool => exact ⟨rfl, hsilent _ _ rfl⟩
  | destroy => exact ⟨rfl, rfl⟩

theorem heardIds_eq (s : Speaker W) (calls : List (Saying W)) : heardIds L s calls =
    (calls.filterMap Saying.hello).mapIdx fun i hello => idOf hello (s.counter + UInt32.ofNat i) := by
  induction calls generalizing s with
  | nil => rfl
  | cons call rest ih =>
    rw [heardIds_cons, ih]
    cases hhello : call.hello with
    | none =>
      obtain ⟨hcounter, hids⟩ := say_other (L := L) hhello s
      rw [hcounter, hids, List.filterMap_cons_none hhello, List.nil_append]
    | some hello =>
      obtain ⟨hcounter, hids⟩ := say_hello (L := L) hhello s
      rw [hcounter, hids, List.filterMap_cons_some hhello, List.mapIdx_cons]
      have hnext : ∀ i, s.counter + 1 + UInt32.ofNat i = s.counter + UInt32.ofNat (i + 1) := by
        intro i
        rw [UInt32.ofNat_add, UInt32.add_assoc, UInt32.add_comm 1]
        rfl
      simp only [hnext, List.singleton_append]
      rw [show UInt32.ofNat 0 = 0 from rfl, UInt32.add_zero]

/-- Of all hellos of a process that get memory for an id, two have the same id exactly when they
are of the same second and their numbers agree modulo 2^32. -/
theorem session_ids_iff (L : CJsonLib) (serverName : Option CStr) (w : W) (calls : List (Saying W))
    (i j : ℕ) (now now' : Int64) (hi : (calls.filterMap Saying.hello)[i]? = some (now, true))
    (hj : (calls.filterMap Saying.hello)[j]? = some (now', true)) :
    let ids := heardIds L (Speaker.start serverName w) calls
    ∃ id id', ids[i]? = some (some id) ∧ ids[j]? = some (some id') ∧
      (id = id' ↔ now = now' ∧ i % 2 ^ 32 = j % 2 ^ 32) := by
  intro ids
  have hids : ∀ k time, (calls.filterMap Saying.hello)[k]? = some (time, true) →
      ids[k]? = some (some (sessionText time (UInt32.ofNat k))) := by
    intro k time hk
    have hcounter : (Speaker.start serverName w).counter = 0 := rfl
    simp only [ids, heardIds_eq, List.getElem?_mapIdx, hk, Option.map_some, idOf, if_true, hcounter,
      UInt32.zero_add]
  refine ⟨_, _, hids i now hi, hids j now' hj, ?_⟩
  rw [sessionText_inj, ← UInt32.toNat_inj, UInt32.toNat_ofNat', UInt32.toNat_ofNat']

/-- A transport that is set twice in one second. -/
def twoHellos : List (Saying Unit) :=
  [.setTransport true true (some (lit "tcp")) 5 true, .notify none none none,
    .setTransport true true (some (lit "tcp")) 5 true]

theorem session_ids_iff_two :
    ∃ id id', (heardIds CJsonLib.reference (Speaker.start none ()) twoHellos)[0]? = some (some id) ∧
      (heardIds CJsonLib.reference (Speaker.start none ()) twoHellos)[1]? = some (some id') ∧
      id ≠ id' := by
  obtain ⟨id, id', hid, hid', hiff⟩ :=
    session_ids_iff CJsonLib.reference none () twoHellos 0 1 5 5 rfl rfl
  exact ⟨id, id', hid, hid', fun h => absurd (hiff.mp h).2 (by decide)⟩

/-! ## No echo -/

theorem carries_ignored (hL : L.RoundTrips) (hO : L.ReadsOneObject) {payload : CStr} {v : CJson}
    {u : Utterance} (h : Carries L payload v u) (server : McpServer W) (rest : CStr) (w : W) :
    mcpServerParseMessage L server (payload ++ rest) w = ([], w) := by
  obtain ⟨ms, rfl⟩ : ∃ ms, v = .object ms := by
    have hobject := h.object
    cases v <;> simp [CJson.isObject] at hobject ⊢
  have hparse := hL.parse_print _ h.plain
  rw [← h.print] at hparse
  rw [parseMessage_eq, requestOf, hO.ignores_rest _ _ rest hparse, Option.bind_some, h.silent]

/-- No server does anything with messages that begin with what a server has sent, so servers that
are connected to each other fall silent. -/
theorem never_echoes {V : Type} (hL : L.RoundTrips) (hO : L.ReadsOneObject)
    (serverName : Option CStr) (w : W) (calls : List (Saying W)) (server : McpServer V) (v : V)
    (messages : List CStr)
    (hmessages : ∀ message ∈ messages, ∃ payload rest, message = payload ++ rest ∧
      (payload ∈ ((Speaker.start serverName w).sayAll L calls).transportSend ∨
        payload ∈ ((Speaker.start serverName w).sayAll L calls).callback)) :
    parseMessages L server messages v = ([], v) := by
  obtain ⟨htransport, hcallback, -⟩ := sayAll_hears hL serverName w calls
  have hcarries : ∀ sent us, Hears L sent us → ∀ payload ∈ sent, ∃ x u, Carries L payload x u := by
    intro sent us h payload hpayload
    obtain ⟨i, hi, rfl⟩ := List.getElem_of_mem hpayload
    obtain ⟨x, hx⟩ := h.get hi (h.length_eq ▸ hi)
    exact ⟨x, _, hx⟩
  induction messages with
  | nil => rfl
  | cons message rest ih =>
    obtain ⟨⟨payload, more, rfl, hpayload⟩, hrest⟩ := List.forall_mem_cons.mp hmessages
    obtain ⟨x, u, hx⟩ := hpayload.elim (hcarries _ _ htransport payload)
      (hcarries _ _ hcallback payload)
    rw [parseMessages, carries_ignored hL hO hx, ih hrest]
    rfl

theorem never_echoes_short : parseMessages CJsonLib.reference pingServer
    ((Speaker.start none ()).sayAll CJsonLib.reference shortTalk).transportSend () = ([], ()) := by
  refine never_echoes CJsonLib.reference_roundTrips CJsonLib.reference_readsOneObject none () shortTalk
    pingServer () _ fun payload hpayload => ?_
  exact ⟨payload, ∅, (append_empty payload).symm, .inl hpayload⟩

end MlinkDevice
