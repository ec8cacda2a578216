import MlinkDevice.Dispatch
import MlinkDevice.Fifo

/-!
# From the socket to the server

`tcp.c` and `unix.c` read the stream, `mcp_server.c` makes a message of each piece they
read, and the worker of `background_sched.c` parses the messages. Nothing on the way
looks for the end of a request.
-/

open MlinkDevice.CStr

namespace MlinkDevice

variable {W : Type} {L : CJsonLib}

/-! ## The receive threads -/

/-- What one `recv` leaves in a buffer of that size. -/
structure Chunk (size : ℕ) where
  bytes : List UInt8
  nonempty : bytes ≠ []
  fits : bytes.length ≤ size

inductive RecvResult (size : ℕ) where
  | data (chunk : Chunk size)
  | closed
  | interrupted
  | failed

/-- The chunks that the thread passes to its callback, for the results of its `recv` calls. -/
def recvThread {size : ℕ} : List (RecvResult size) → List (Chunk size)
  | [] => []
  | .data chunk :: rest => chunk :: recvThread rest
  | .closed :: _ => []
  | .interrupted :: rest => recvThread rest
  | .failed :: _ => []

def tcpRecvBufferSize : ℕ := 4096

def unixRecvBufferSize : ℕ := 4096

def tcpRecvThread : List (RecvResult tcpRecvBufferSize) → List (Chunk tcpRecvBufferSize) :=
  recvThread

def unixRecvThread : List (RecvResult unixRecvBufferSize) → List (Chunk unixRecvBufferSize) :=
  recvThread

/-! ## The receive callback and the worker -/

/-- The message made of what was received. It is posted to the worker, or parsed at once
when there is none. -/
def mcpServerTransportReceiveCallback (data : List UInt8) : Option CStr :=
  if data.length = 0 then none else some (ofMem (data ++ [0]))

def mcpMessageTaskRun (L : CJsonLib) (server : McpServer W) (done : List (Event W) × W)
    (message : CStr) : List (Event W) × W :=
  let next := mcpServerParseMessage L server message done.2
  (done.1 ++ next.1, next.2)

/-- The thread passes on those chunks and the worker runs its tasks, in any order of their
steps. Once both are through, the server has done that. -/
def Handles {size : ℕ} (L : CJsonLib) (server : McpServer W) (worker : Bool)
    (chunks : List (Chunk size)) (w : W) (done : List (Event W) × W) : Prop :=
  ∃ p, Fifo.Steps (fun chunk : Chunk size => mcpServerTransportReceiveCallback chunk.bytes)
      (mcpMessageTaskRun L server) worker (Fifo.start chunks ([], w)) p ∧ p.Ended ∧ p.state = done

/-! ## Each chunk is a message -/

def Chunk.text {size : ℕ} (chunk : Chunk size) : CStr := ofMem (chunk.bytes ++ [0])

theorem receiveCallback_chunk {size : ℕ} (chunk : Chunk size) :
    mcpServerTransportReceiveCallback chunk.bytes = some chunk.text := by
  rw [mcpServerTransportReceiveCallback, if_neg]
  · rfl
  · exact fun h => chunk.nonempty (List.length_eq_zero_iff.mp h)

theorem foldl_messageTaskRun (server : McpServer W) (messages : List CStr)
    (done : List (Event W) × W) : messages.foldl (mcpMessageTaskRun L server) done =
      (done.1 ++ (parseMessages L server messages done.2).1,
        (parseMessages L server messages done.2).2) := by
  induction messages generalizing done with
  | nil => simp [parseMessages]
  | cons message rest ih =>
    rw [List.foldl_cons, ih]
    simp [mcpMessageTaskRun, parseMessages]

theorem Handles.eq {size : ℕ} {server : McpServer W} {worker : Bool} {chunks : List (Chunk size)}
    {w : W} {done : List (Event W) × W} (h : Handles L server worker chunks w done) :
    done = parseMessages L server (chunks.map Chunk.text) w := by
  obtain ⟨p, hsteps, hended, rfl⟩ := h
  rw [hsteps.ended hended, foldl_messageTaskRun]
  simp only [receiveCallback_chunk, List.nil_append]
  rw [← List.filterMap_eq_map]
  rfl

theorem exists_handles {size : ℕ} (server : McpServer W) (worker : Bool)
    (chunks : List (Chunk size)) (w : W) : ∃ done, Handles L server worker chunks w done := by
  obtain ⟨p, hsteps, hended⟩ : ∃ p, Fifo.Steps
      (fun chunk : Chunk size => mcpServerTransportReceiveCallback chunk.bytes)
      (mcpMessageTaskRun L server) worker (Fifo.start chunks ([], w)) p ∧ p.Ended :=
    Fifo.exists_ended _
  exact ⟨p.state, p, hsteps, hended, rfl⟩

/-! ## What is in a chunk -/

theorem requestOf_isSome {r : CStr} (h : (requestOf L r).isSome) :
    ∃ members, L.parse r = some (.object members) := by
  obtain ⟨request, hrequest⟩ := Option.isSome_iff_exists.mp h
  obtain ⟨json, hparse, hread⟩ := Option.bind_eq_some_iff.mp hrequest
  cases json with
  | object members => exact ⟨members, hparse⟩
  | _ => simp [readRequest, CJson.getObjectItem] at hread

theorem parseMessage_append (hL : L.ReadsOneObject) (server : McpServer W) {r : CStr}
    (hr : (requestOf L r).isSome) (rest : CStr) (w : W) :
    mcpServerParseMessage L server (r ++ rest) w = mcpServerParseMessage L server r w := by
  obtain ⟨members, hparse⟩ := requestOf_isSome hr
  rw [mcpServerParseMessage, mcpServerParseMessage, hL.ignores_rest _ _ rest hparse, hparse]

theorem parseMessage_truncated (hL : L.ReadsOneObject) (server : McpServer W) {t rest : CStr}
    (hr : (requestOf L (t ++ rest)).isSome) (ht : L.parse t ≠ L.parse (t ++ rest)) (w : W) :
    mcpServerParseMessage L server t w = ([], w) := by
  obtain ⟨members, hparse⟩ := requestOf_isSome hr
  rw [mcpServerParseMessage, hL.rejects_truncated _ _ rest hparse (hparse ▸ ht)]

theorem Chunk.text_eq_append {size : ℕ} {chunk : Chunk size} {r : CStr}
    (h : r.bytes <+: chunk.bytes) : ∃ rest, chunk.text = r ++ rest := by
  obtain ⟨rest, hrest⟩ := h
  exact ⟨ofMem (rest ++ [0]), by rw [text, ← hrest, List.append_assoc, ofMem_append]⟩

theorem Chunk.eq_text_append {size : ℕ} {chunk : Chunk size} {r : CStr}
    (h : chunk.bytes <+: r.bytes) : ∃ rest, r = chunk.text ++ rest := by
  obtain ⟨rest, hrest⟩ := h
  have hchunk : 0 ∉ chunk.bytes := fun h0 => r.nulFree (hrest ▸ List.mem_append_left rest h0)
  refine ⟨⟨rest, fun h0 => r.nulFree (hrest ▸ List.mem_append_right chunk.bytes h0)⟩, ?_⟩
  ext1
  rw [text, ofMem_terminated ⟨chunk.bytes, hchunk⟩, bytes_append, hrest]

theorem parseMessages_chunks (hL : L.ReadsOneObject) {size : ℕ} (server : McpServer W)
    {chunks : List (Chunk size)} {rs : List CStr} (hrs : ∀ r ∈ rs, (requestOf L r).isSome)
    (h : List.Forall₂ (fun chunk r => r.bytes <+: chunk.bytes) chunks rs) (w : W) :
    parseMessages L server (chunks.map Chunk.text) w = parseMessages L server rs w := by
  induction h generalizing w with
  | nil => rfl
  | @cons chunk r chunks rs hbegins _ ih =>
    obtain ⟨rest, hrest⟩ := Chunk.text_eq_append hbegins
    have hr := hrs r List.mem_cons_self
    simp only [List.map_cons, parseMessages]
    rw [hrest, parseMessage_append hL server hr, ih fun r h => hrs r (List.mem_cons_of_mem _ h)]

theorem length_payloads (hL : L.RoundTrips) {server : McpServer W} (hs : server.InStep)
    {messages : List CStr} (h : ∀ r ∈ messages, (requestOf L r).isSome) (w : W) :
    (payloads (parseMessages L server messages w).1).length = messages.length := by
  rw [parseMessages_eq, ← (serve_replies hL hs _ w).length_eq]
  exact List.filterMap_length_eq_length.mpr h

/-! ## Two requests in one chunk -/

def pingText : CStr := CJsonLib.reference.print pingCall

theorem pingText_isSome : (requestOf CJsonLib.reference pingText).isSome := by
  rw [pingText, pingCall, requestOf_requestJson CJsonLib.reference_roundTrips 7 _ (by simp)]
  rfl

theorem pingText_strlen : pingText.strlen = 71 := by
  have hP := CJsonLib.reference_printsCompactly
  have hlit : ∀ s : CStr, Json.IsPlain s →
      (CJsonLib.reference.print (.string s)).strlen = s.strlen + 2 := fun s => hP.strlen_string
  have hid : (CJsonLib.reference.print (.number (7 : Int32).toInt)).strlen = 1 := by
    have hdigit : Json.decimal 7 = [55] := by
      rw [Json.decimal]
      rfl
    have hprint : CJsonLib.reference.print (.number (7 : Int32).toInt) = Json.printInt 7 := by
      simp only [CJsonLib.reference, Json.print, Json.printNumber_intCast]
      rfl
    rw [hprint]
    change (Json.decimal 7).length = 1
    rw [hdigit, List.length_singleton]
  rw [pingText, pingCall, requestJson]
  simp only [hP.strlen_object, List.map_cons, List.map_nil, List.sum_cons, List.sum_nil,
    List.length_cons, List.length_nil, hid]
  simp (disch := decide) only [hlit]
  decide

def onePing : Chunk tcpRecvBufferSize where
  bytes := pingText.bytes
  nonempty h := absurd (congrArg List.length h) (by rw [← strlen, pingText_strlen]; decide)
  fits := by rw [← strlen, pingText_strlen]; decide

def twoPings : Chunk tcpRecvBufferSize where
  bytes := (pingText ++ pingText).bytes
  nonempty h := absurd (congrArg List.length h)
    (by rw [← strlen, strlen_append, pingText_strlen]; decide)
  fits := by rw [← strlen, strlen_append, pingText_strlen]; decide

/-! ## Chunks and messages -/

/-- The server does what it would do with each chunk as a message, in their order. A chunk
that begins with a request acts as the request, and one that cuts it does nothing. So the
requests act as they would on their own when each chunk begins with the next of them. -/
theorem chunks_are_messages (hL : L.ReadsOneObject) (server : McpServer W) (worker : Bool) (w : W) :
    (∀ results, (∃ done, Handles L server worker (tcpRecvThread results) w done) ∧
      ∀ done, Handles L server worker (tcpRecvThread results) w done →
        done = parseMessages L server ((tcpRecvThread results).map Chunk.text) w) ∧
    (∀ results, (∃ done, Handles L server worker (unixRecvThread results) w done) ∧
      ∀ done, Handles L server worker (unixRecvThread results) w done →
        done = parseMessages L server ((unixRecvThread results).map Chunk.text) w) ∧
    (∀ (size : ℕ) (chunk : Chunk size) r, (requestOf L r).isSome →
      (r.bytes <+: chunk.bytes →
        mcpServerParseMessage L server chunk.text w = mcpServerParseMessage L server r w) ∧
      (chunk.bytes <+: r.bytes → L.parse chunk.text ≠ L.parse r →
        mcpServerParseMessage L server chunk.text w = ([], w))) ∧
    (∀ (size : ℕ) (chunks : List (Chunk size)) rs, (∀ r ∈ rs, (requestOf L r).isSome) →
      List.Forall₂ (fun chunk r => r.bytes <+: chunk.bytes) chunks rs →
      ∀ done, Handles L server worker chunks w done → done = parseMessages L server rs w) := by
  refine ⟨fun _ => ⟨exists_handles .., fun _ h => h.eq⟩,
    fun _ => ⟨exists_handles .., fun _ h => h.eq⟩,
    fun size chunk r hr => ⟨fun hbegins => ?_, fun hbegins hparse => ?_⟩,
    fun size chunks rs hrs hbegins done h => ?_⟩
  · obtain ⟨rest, hrest⟩ := Chunk.text_eq_append hbegins
    rw [hrest, parseMessage_append hL server hr]
  · obtain ⟨rest, rfl⟩ := Chunk.eq_text_append hbegins
    exact parseMessage_truncated hL server hr hparse w
  · rw [h.eq, parseMessages_chunks hL server hrs hbegins]

theorem chunks_are_messages_ping :
    ∃ done, Handles CJsonLib.reference pingServer true [onePing] () done ∧
      done = parseMessages CJsonLib.reference pingServer [pingText] () := by
  have h := chunks_are_messages CJsonLib.reference_readsOneObject pingServer true ()
  obtain ⟨done, hdone⟩ := (h.1 [.data onePing]).1
  refine ⟨done, hdone, h.2.2.2 _ [onePing] [pingText] ?_ (.cons List.prefix_rfl .nil) done hdone⟩
  exact List.forall_mem_singleton.mpr pingText_isSome

/-- Two requests that arrive in one chunk get one reply. -/
theorem second_request_lost :
    (∀ r ∈ [pingText, pingText], (requestOf CJsonLib.reference r).isSome) ∧
    [twoPings].flatMap Chunk.bytes = [pingText, pingText].flatMap CStr.bytes ∧
    tcpRecvThread [.data twoPings] = [twoPings] ∧
    (payloads (parseMessages CJsonLib.reference pingServer [pingText, pingText] ()).1).length = 2 ∧
    ∀ worker done, Handles CJsonLib.reference pingServer worker [twoPings] () done →
      (payloads done.1).length = 1 := by
  have hone : ∀ r ∈ [pingText], (requestOf CJsonLib.reference r).isSome :=
    List.forall_mem_singleton.mpr pingText_isSome
  have htwo : ∀ r ∈ [pingText, pingText], (requestOf CJsonLib.reference r).isSome :=
    List.forall_mem_cons.mpr ⟨pingText_isSome, hone⟩
  have hs := pingServer_reachable.inStep
  have hbegins : pingText.bytes <+: twoPings.bytes := List.prefix_append _ _
  refine ⟨htwo, by simp [twoPings], rfl, ?_, fun worker done h => ?_⟩
  · exact length_payloads CJsonLib.reference_roundTrips hs htwo ()
  · rw [h.eq, parseMessages_chunks CJsonLib.reference_readsOneObject pingServer hone
      (.cons hbegins .nil)]
    exact length_payloads CJsonLib.reference_roundTrips hs hone ()

end MlinkDevice
