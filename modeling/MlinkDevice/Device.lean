import MlinkDevice.Delivery
import MlinkDevice.Outgoing
import MlinkDevice.Receive

/-!
# From chunks to replies

The receive thread, the worker and the connection of one server together. A chunk is posted,
taken and parsed, and the payloads of the parse go to the socket as far as `send` takes them,
before the worker takes the next one. Nothing but these payloads is sent meanwhile: no hello and
no notification.
-/

open MlinkDevice.CStr
open MlinkDevice.LinkedQueue

namespace MlinkDevice

variable {W : Type} {L : CJsonLib}

/-! ## The steps of the threads -/

/-- `world` is that of the callbacks. `sending` is what the parse of a message has still to send,
while there is one. -/
structure Device (W : Type) where
  delivery : Delivery
  world : W
  sending : Option (List CStr) := none
  wire : Wire := {}

/-- The message in the hands of the receive thread, or else of the worker. -/
def Delivery.parsing (d : Delivery) : Option Message := d.inline <|> d.sched.current.head?

def Message.string (m : Message) : CStr := ofMem m.text

inductive DeviceAction where
  | receive (data : List UInt8) (memory : CallbackMemory)
  | take
  | parse
  | send
  | write (n : ℕ)
  | finish
  | account

/-- The receive thread takes what the peer sends, and the rest goes on without the peer. -/
def DeviceAction.internal : DeviceAction → Bool
  | .receive _ _ => false
  | _ => true

def deviceStep (L : CJsonLib) (server : McpServer W) (ops : HwioOps) (s : Device W) :
    DeviceAction → Option (Device W)
  | .receive data memory =>
    (deliveryStep s.delivery (.receive data memory)).map fun delivery => { s with delivery }
  | .take => (deliveryStep s.delivery (.worker .take)).map fun delivery => { s with delivery }
  | .parse =>
    match s.sending, s.delivery.parsing with
    | none, some message =>
      let done := mcpServerParseMessage L server message.string s.world
      some { s with world := done.2, sending := some (payloads done.1) }
    | _, _ => none
  | .send =>
    match s.sending, s.wire.calls with
    | some (payload :: rest), [] =>
      (wireStep ops s.wire (.call payload)).map fun wire => { s with wire, sending := some rest }
    | _, _ => none
  | .write n => (wireStep ops s.wire (.send 0 n)).map fun wire => { s with wire }
  | .finish =>
    match s.sending, s.wire.calls with
    | some [], [] =>
      let last : DeliveryAction := if s.delivery.inline.isSome then .parse else .worker .call
      (deliveryStep s.delivery last).map fun delivery => { s with delivery, sending := none }
    | _, _ => none
  | .account => (deliveryStep s.delivery (.worker .account)).map fun delivery => { s with delivery }

def Device.start (worker : Bool) (w : W) : Device W := { delivery := { worker }, world := w }

/-- Where there is a worker each chunk gets the memory to be posted, and a payload fits the cast of
its size. -/
def Undisturbed (s : Device W) : DeviceAction → Prop
  | .receive _ memory => s.delivery.worker = true → memory.task = true ∧ memory.node.isSome = true
  | .send => ∀ payload rest, s.sending = some (payload :: rest) → payload.strlen < 2 ^ 32
  | _ => True

/-- Nothing is queued, taken or being sent. -/
structure Device.Idle (s : Device W) : Prop where
  queue : s.delivery.sched.sched.queue.head = none
  worker : s.delivery.sched.worker = .waiting
  inline : s.delivery.inline = none
  sending : s.sending = none

/-! ## What the server does with the chunks -/

def answers (L : CJsonLib) (server : McpServer W) (w : W) (messages : List Message) :
    List (Event W) × W :=
  parseMessages L server (messages.map Message.string) w

/-- The messages that were parsed or are being parsed. -/
def Device.begun (s : Device W) : List Message :=
  s.delivery.sched.ran ++ s.delivery.parsed ++
    if s.sending.isSome then s.delivery.parsing.toList else []

/-! ## The order of the messages -/

/-- Either every chunk goes through the queue, or the receive thread parses every chunk. -/
structure Delivery.Ordered (d : Delivery) (nodes : List (Addr × Message)) : Prop where
  sched : d.sched.Holds nodes
  idle : d.sched.destroyer = .idle
  posted : d.worker = true → d.inline = none ∧ d.parsed = [] ∧ d.sched.accepted = copies d.chunks
  direct : d.worker = false → d.sched.worker = .waiting ∧ d.sched.accepted = [] ∧
    d.parsed ++ d.inline.toList = copies d.chunks

def Delivery.done (d : Delivery) : List Message := d.sched.ran ++ d.parsed

theorem start_ordered (worker : Bool) : ({ worker } : Delivery).Ordered [] where
  sched := create_holds
  idle := rfl
  posted _ := ⟨rfl, rfl, rfl⟩
  direct _ := ⟨rfl, rfl, rfl⟩

section Delivery

variable {d e : Delivery} {nodes : List (Addr × Message)}

theorem SchedSystem.current_length {T : Type} (s : SchedSystem T) : s.current.length ≤ 1 := by
  unfold SchedSystem.current
  split
  · cases s.sched.queue.heap _ <;> simp
  · simp

theorem SchedSystem.head_current {T : Type} (s : SchedSystem T) :
    s.current.head?.toList = s.current := by
  have hlength := s.current_length
  rcases hcurrent : s.current with _ | ⟨message, _ | ⟨other, rest⟩⟩
  · rfl
  · rfl
  · rw [hcurrent] at hlength
    simp at hlength

theorem Delivery.Ordered.empty (h : d.Ordered nodes) (hworker : d.worker = false) :
    d.sched.ran = [] ∧ d.sched.current = [] ∧ nodes = [] := by
  have horder := h.sched.order
  rw [(h.direct hworker).2.1] at horder
  simpa [and_assoc] using horder

theorem Delivery.Ordered.order (h : d.Ordered nodes) :
    d.done ++ d.parsing.toList ++ nodes.map (·.2) = copies d.chunks := by
  unfold Delivery.done Delivery.parsing
  cases hworker : d.worker with
  | true =>
    obtain ⟨hinline, hparsed, haccepted⟩ := h.posted hworker
    rw [hinline, hparsed, ← haccepted, ← h.sched.order, List.append_nil, ← d.sched.head_current]
    simp [SchedSystem.head_current]
  | false =>
    obtain ⟨hran, hcurrent, rfl⟩ := h.empty hworker
    obtain ⟨-, -, hchunks⟩ := h.direct hworker
    rw [hran, hcurrent, ← hchunks]
    cases d.inline <;> simp

theorem schedPost_posted {T : Type} {s : SchedSystem T} (hidle : s.destroyer = .idle) (task : T)
    (a : Addr) : schedPost s (some task) (some a) = { s with
      sched := { s.sched with queue := s.sched.queue.push a task, pending := s.sched.pending + 1 }
      accepted := s.accepted ++ [task] } := by
  unfold schedPost
  rw [if_neg (by simp [bgSchedPost]), if_neg (by simp [hidle])]
  rfl

theorem SchedSystem.Holds.current_post {T : Type} {s t : SchedSystem T}
    {nodes nodes' : List (Addr × T)} (h : s.Holds nodes) (h' : t.Holds nodes') (hran : t.ran = s.ran)
    {task : T} {a : Addr} (hnodes : nodes' = nodes ++ [(a, task)])
    (haccepted : t.accepted = s.accepted ++ [task]) : t.current = s.current := by
  have horder := h'.order
  rw [haccepted, ← h.order, hran, hnodes] at horder
  simpa using horder

theorem Delivery.Ordered.keep (h : d.Ordered nodes) (hworker : d.worker = false)
    (hfree : d.inline = none) (data : List UInt8) :
    let e := { d with chunks := d.chunks ++ [data], inline := some ⟨d.chunks.length, data ++ [0]⟩ }
    e.Ordered nodes ∧ d.parsing = none := by
  obtain ⟨-, hcurrent, -⟩ := h.empty hworker
  obtain ⟨hwaiting, haccepted, hchunks⟩ := h.direct hworker
  refine ⟨⟨h.sched, h.idle, ?_, fun _ => ⟨hwaiting, haccepted, ?_⟩⟩, ?_⟩
  · intro hposted
    exact absurd (hworker.symm.trans hposted) Bool.false_ne_true
  · dsimp only
    rw [copies_concat, ← hchunks, hfree]
    simp
  · simp [Delivery.parsing, hfree, hcurrent]

theorem Delivery.Ordered.post (h : d.Ordered nodes) (hworker : d.worker = true)
    (hfree : d.inline = none) (data : List UInt8) {a : Addr}
    (hfresh : (d.sched.sched.queue.heap a).isSome = false) :
    let message : Message := ⟨d.chunks.length, data ++ [0]⟩
    let e := { d with chunks := d.chunks ++ [data], sched := schedPost d.sched (some message) (some a) }
    e.Ordered (nodes ++ [(a, message)]) ∧ e.done = d.done ∧ e.parsing = d.parsing := by
  intro message e
  obtain ⟨-, hparsed, haccepted⟩ := h.posted hworker
  have hexited : d.sched.worker ≠ .exited := fun hexited => (h.sched.exited hexited).2 h.idle
  have hsched : e.sched.Holds (nodes ++ [(a, message)]) :=
    h.sched.post hexited (Option.not_isSome_iff_eq_none.mp (Bool.eq_false_iff.mp hfresh))
  have hposted : e.sched = _ := schedPost_posted h.idle message a
  have hcurrent := h.sched.current_post hsched (by rw [hposted]) rfl (by rw [hposted])
  refine ⟨⟨hsched, ?_, fun _ => ⟨hfree, hparsed, ?_⟩, fun hdirect => ?_⟩, ?_, ?_⟩
  · rw [hposted]
    exact h.idle
  · rw [hposted, copies_concat, ← haccepted]
  · exact absurd (hworker.symm.trans hdirect) Bool.noConfusion
  · simp only [Delivery.done, hposted]
    rfl
  · simp only [Delivery.parsing, hcurrent]
    rfl

theorem Delivery.Ordered.receive (h : d.Ordered nodes) {data : List UInt8} {memory : CallbackMemory}
    (hmemory : d.worker = true → memory.task = true ∧ memory.node.isSome = true)
    (hstep : deliveryStep d (.receive data memory) = some e) :
    (∃ nodes', e.Ordered nodes') ∧ e.worker = d.worker ∧ e.done = d.done ∧
      (d.parsing.isSome → e.parsing = d.parsing) := by
  obtain ⟨hfree, hstep⟩ := Option.ite_none_right_eq_some.mp hstep
  rcases receiveCallback_cases hstep with
    ⟨-, rfl⟩ | ⟨-, hdirect, rfl⟩ | ⟨-, hworker, -, sched, hpost, rfl⟩
  · exact ⟨⟨nodes, h⟩, rfl, rfl, fun _ => rfl⟩
  · have hworker : d.worker = false := by
      rcases hdirect with hworker | htask
      · exact hworker
      · refine Bool.eq_false_iff.mpr fun hworker => ?_
        exact Bool.noConfusion (htask.symm.trans (hmemory hworker).1)
    obtain ⟨hordered, hnone⟩ := h.keep hworker hfree data
    refine ⟨⟨nodes, hordered⟩, rfl, rfl, fun hparsing => ?_⟩
    rw [hnone] at hparsing
    exact Bool.noConfusion hparsing
  · obtain ⟨a, ha⟩ := Option.isSome_iff_exists.mp (hmemory hworker).2
    rw [ha] at hpost ⊢
    obtain ⟨hfresh, hpost⟩ := Option.ite_none_left_eq_some.mp hpost
    obtain rfl := Option.some.inj hpost
    rw [if_neg (by simp [bgSchedPost])]
    obtain ⟨hordered, hdone, hparsing⟩ := h.post hworker hfree data (Bool.eq_false_iff.mpr hfresh)
    exact ⟨⟨_, hordered⟩, rfl, hdone, fun _ => hparsing⟩

theorem deliveryStep_worker {action : SchedAction Message}
    (hstep : deliveryStep d (.worker action) = some e) :
    action.byWorker = true ∧ ∃ sched, schedStep d.sched action = some sched ∧ e = { d with sched } := by
  obtain ⟨hworker, hstep⟩ := Option.ite_none_right_eq_some.mp hstep
  obtain ⟨sched, hsched, rfl⟩ := Option.map_eq_some_iff.mp hstep
  exact ⟨hworker, sched, hsched, rfl⟩

theorem Delivery.Ordered.worker (h : d.Ordered nodes) (hposted : d.worker = true) {action : SchedAction Message}
    (hstep : deliveryStep d (.worker action) = some e) {rest : List (Addr × Message)}
    (hrest : e.sched.Holds rest) :
    e.Ordered rest := by
  obtain ⟨hworker, sched, hsched, rfl⟩ := deliveryStep_worker hstep
  obtain ⟨hidle, haccepted, -, -⟩ := schedStep_byWorker hworker hsched
  obtain ⟨hinline, hparsed, hchunks⟩ := h.posted hposted
  refine ⟨hrest, hidle.trans h.idle, fun _ => ⟨hinline, hparsed, haccepted.trans hchunks⟩,
    fun hdirect => ?_⟩
  exact absurd (hposted.symm.trans hdirect) Bool.noConfusion

theorem Delivery.Ordered.posts (h : d.Ordered nodes)
    (hbusy : nodes ≠ [] ∨ d.sched.worker ≠ .waiting) : d.worker = true := by
  cases hworker : d.worker with
  | true => rfl
  | false =>
    rcases hbusy with hnodes | hworking
    · exact absurd (h.empty hworker).2.2 hnodes
    · exact absurd (h.direct hworker).1 hworking

theorem Delivery.Ordered.take (h : d.Ordered nodes)
    (hstep : deliveryStep d (.worker .take) = some e) :
    d.parsing = none ∧ e.done = d.done ∧ ∃ node rest, nodes = node :: rest ∧
      e.Ordered rest := by
  obtain ⟨-, sched, hsched, he⟩ := deliveryStep_worker hstep
  obtain ⟨node, rest, rfl, hrest⟩ := h.sched.take hsched
  have hposted := h.posts (.inl (List.cons_ne_nil node rest))
  obtain ⟨hwaiting, htaken⟩ := Option.ite_none_right_eq_some.mp hsched
  obtain ⟨taken, -, htaken⟩ := Option.map_eq_some_iff.mp htaken
  subst he
  have hordered := h.worker hposted hstep hrest
  have hran : sched.ran = d.sched.ran := by rw [← htaken]
  refine ⟨?_, ?_, node, rest, rfl, hordered⟩
  · simp [Delivery.parsing, (h.posted hposted).1, SchedSystem.current, hwaiting]
  · simp only [Delivery.done, hran]

theorem Delivery.Ordered.finish_inline (h : d.Ordered nodes) {message : Message}
    (hinline : d.inline = some message) :
    let e := { d with inline := none, parsed := d.parsed ++ [message] }
    e.Ordered nodes ∧ e.done = d.done ++ [message] ∧ e.parsing = none := by
  have hdirect : d.worker = false := by
    refine Bool.eq_false_iff.mpr fun hposted => ?_
    rw [(h.posted hposted).1] at hinline
    exact absurd hinline.symm (Option.some_ne_none message)
  obtain ⟨-, hcurrent, -⟩ := h.empty hdirect
  obtain ⟨hwaiting, haccepted, hchunks⟩ := h.direct hdirect
  refine ⟨⟨h.sched, h.idle, fun hposted => ?_, fun _ => ⟨hwaiting, haccepted, ?_⟩⟩, ?_, ?_⟩
  · exact absurd (hdirect.symm.trans hposted) Bool.false_ne_true
  · rw [← hchunks, hinline]
    simp
  · simp [Delivery.done]
  · simp [Delivery.parsing, hcurrent]

theorem Delivery.Ordered.finish_call (h : d.Ordered nodes) (hinline : d.inline = none)
    {message : Message} (hparsing : d.parsing = some message)
    (hstep : deliveryStep d (.worker .call) = some e) :
    e.Ordered nodes ∧ e.done = d.done ++ [message] ∧ e.parsing = none := by
  obtain ⟨-, sched, hsched, he⟩ := deliveryStep_worker hstep
  have hrest := h.sched.call hsched
  subst he
  obtain ⟨task, node, hworker, hnode, hcalled⟩ := schedStep_call hsched
  have hcurrent : d.sched.current = [node.item] := by simp [SchedSystem.current, hworker, hnode]
  obtain rfl : node.item = message := by
    simpa [Delivery.parsing, hinline, hcurrent] using hparsing
  have hposted := h.posts (.inr (by simp [hworker]))
  have hparsed := (h.posted hposted).2.1
  have hordered := h.worker hposted hstep hrest
  rw [hcalled] at hordered ⊢
  refine ⟨hordered, ?_, ?_⟩
  · simp [Delivery.done, hparsed]
  · simp [Delivery.parsing, hinline, SchedSystem.current]

theorem Delivery.Ordered.finish (h : d.Ordered nodes) {message : Message}
    (hparsing : d.parsing = some message)
    (hstep : deliveryStep d (if d.inline.isSome then .parse else .worker .call) = some e) :
    e.Ordered nodes ∧ e.done = d.done ++ [message] ∧ e.parsing = none := by
  cases hinline : d.inline with
  | some m =>
    rw [hinline, Option.isSome_some, if_pos rfl] at hstep
    obtain rfl : m = message := by simpa [Delivery.parsing, hinline] using hparsing
    obtain ⟨m', hm', rfl⟩ := Option.map_eq_some_iff.mp hstep
    obtain rfl : m = m' := Option.some.inj (hinline.symm.trans hm')
    exact h.finish_inline hinline
  | none =>
    rw [hinline, Option.isSome_none, if_neg Bool.false_ne_true] at hstep
    exact h.finish_call hinline hparsing hstep

theorem Delivery.Ordered.account (h : d.Ordered nodes)
    (hstep : deliveryStep d (.worker .account) = some e) :
    e.Ordered nodes ∧ e.done = d.done ∧ d.parsing = none ∧ e.parsing = none ∧
      d.sched.worker = .finished ∧ e.sched.worker = .waiting := by
  obtain ⟨-, sched, hsched, he⟩ := deliveryStep_worker hstep
  have hrest := h.sched.account hsched
  obtain ⟨hfinished, hsched⟩ := Option.ite_none_right_eq_some.mp hsched
  subst he
  have hposted := h.posts (.inr (by simp [hfinished]))
  have hordered := h.worker hposted hstep hrest
  obtain rfl := Option.some.inj hsched
  refine ⟨hordered, rfl, ?_, ?_, hfinished, rfl⟩ <;>
    simp [Delivery.parsing, (h.posted hposted).1, SchedSystem.current, hfinished]

end Delivery

/-! ## The connection -/

section Wire

variable {ops : HwioOps} {wire wire' : Wire}

/-- At most one call of the write function, and only while it has something to send. -/
def Wire.Single (wire : Wire) : Prop :=
  wire.calls = [] ∨ ∃ call, wire.calls = [call] ∧ call.left ≠ []

/-- The bytes of the call in progress. -/
def Wire.left (wire : Wire) : List UInt8 := wire.calls.flatMap (·.left)

theorem wireStep_call {payload : CStr} (hcalls : wire.calls = []) (hfits : payload.strlen < 2 ^ 32)
    (hstep : wireStep ops wire (.call payload) = some wire') :
    wire'.Single ∧ wire'.given = wire.given ++ [payload] ∧ wire'.stream = wire.stream ∧
      wire'.left = payload.bytes := by
  have hsize : transportSize payload = payload.strlen := Nat.mod_eq_of_lt hfits
  have hall : payload.bytes.take payload.strlen = payload.bytes := List.take_of_length_le le_rfl
  simp only [wireStep, hsize, hall, hcalls, List.nil_append] at hstep
  split at hstep
  · rename_i hempty
    obtain rfl := Option.some.inj hstep
    obtain rfl := strlen_eq_zero.mp hempty
    exact ⟨.inl rfl, rfl, rfl, rfl⟩
  · rename_i hnonempty
    obtain rfl := Option.some.inj hstep
    refine ⟨.inr ⟨_, rfl, fun hnil => ?_⟩, rfl, rfl, by simp [Wire.left]⟩
    exact hnonempty (List.length_eq_zero_iff.mpr hnil)

theorem wireStep_send {n : ℕ} (hsingle : wire.Single)
    (hstep : wireStep ops wire (.send 0 n) = some wire') :
    wire'.Single ∧ wire'.given = wire.given ∧ wire'.stream ++ wire'.left = wire.stream ++ wire.left ∧
      wire.stream.length < wire'.stream.length := by
  rcases hsingle with hcalls | ⟨call, hcalls, -⟩
  · simp only [wireStep, hcalls, List.getElem?_nil] at hstep
    exact absurd hstep.symm (Option.some_ne_none wire')
  · simp only [wireStep, hcalls, List.getElem?_cons_zero, HwioOps.write_eq] at hstep
    obtain ⟨⟨hpos, hle⟩, hstep⟩ := Option.ite_none_right_eq_some.mp hstep
    have hlonger : wire.stream.length < (wire.stream ++ call.left.take n).length := by
      rw [List.length_append, List.length_take]
      omega
    split at hstep
    · rename_i hdone
      obtain rfl := Option.some.inj hstep
      refine ⟨.inl rfl, rfl, ?_, hlonger⟩
      have hall : call.left.take n = call.left := List.take_of_length_le (List.drop_eq_nil_iff.mp hdone)
      simp [Wire.left, hcalls, hall]
    · rename_i hmore
      obtain rfl := Option.some.inj hstep
      refine ⟨.inr ⟨_, rfl, hmore⟩, rfl, ?_, hlonger⟩
      simp [Wire.left, hcalls]

end Wire

/-! ## The invariant -/

/-- The stream, what is on its way and what is still to send are the payloads of the messages
that were begun. -/
structure Device.Outputs (L : CJsonLib) (server : McpServer W) (w : W) (s : Device W) : Prop where
  closed : s.sending = none → s.wire.calls = []
  single : s.wire.Single
  bytes : s.wire.stream ++ s.wire.left ++ (s.sending.getD []).flatMap CStr.bytes =
    (payloads (answers L server w s.begun).1).flatMap CStr.bytes
  given : s.wire.given ++ s.sending.getD [] = payloads (answers L server w s.begun).1
  world : s.world = (answers L server w s.begun).2

structure Device.Serves (L : CJsonLib) (server : McpServer W) (w : W) (s : Device W)
    (nodes : List (Addr × Message)) : Prop where
  ordered : s.delivery.Ordered nodes
  parsing : s.sending.isSome → s.delivery.parsing.isSome
  outputs : s.Outputs L server w

theorem parseMessages_append (server : McpServer W) (xs ys : List CStr) (w : W) :
    parseMessages L server (xs ++ ys) w =
      ((parseMessages L server xs w).1 ++ (parseMessages L server ys (parseMessages L server xs w).2).1,
        (parseMessages L server ys (parseMessages L server xs w).2).2) := by
  induction xs generalizing w with
  | nil => rfl
  | cons x xs ih =>
    rw [List.cons_append, parseMessages, ih, parseMessages]
    simp

theorem answers_append (server : McpServer W) (w : W) (xs ys : List Message) :
    answers L server w (xs ++ ys) = ((answers L server w xs).1 ++
        (answers L server (answers L server w xs).2 ys).1,
      (answers L server (answers L server w xs).2 ys).2) := by
  unfold answers
  rw [List.map_append, parseMessages_append]

theorem answers_singleton (server : McpServer W) (w : W) (m : Message) :
    answers L server w [m] = mcpServerParseMessage L server m.string w := by
  simp [answers, parseMessages]

theorem Device.begun_eq (s : Device W) : s.begun = s.delivery.done ++
    if s.sending.isSome then s.delivery.parsing.toList else [] := rfl

theorem start_serves (L : CJsonLib) (server : McpServer W) (worker : Bool) (w : W) :
    (Device.start worker w).Serves L server w [] where
  ordered := start_ordered worker
  parsing h := Bool.noConfusion h
  outputs := ⟨fun _ => rfl, .inl rfl, rfl, rfl, rfl⟩

section Steps

variable {server : McpServer W} {ops : HwioOps} {w : W} {s t : Device W} {nodes : List (Addr × Message)}

theorem Device.Serves.moved (h : s.Serves L server w nodes) {delivery : Delivery}
    {nodes' : List (Addr × Message)} (hordered : delivery.Ordered nodes')
    (hdone : delivery.done = s.delivery.done)
    (hparsing : s.delivery.parsing.isSome → delivery.parsing = s.delivery.parsing) :
    Device.Serves L server w { s with delivery } nodes' := by
  have hbegun : Device.begun { s with delivery } = s.begun := by
    simp only [Device.begun_eq, hdone]
    cases hsending : s.sending with
    | none => rfl
    | some payloads =>
      have hsome := h.parsing (by rw [hsending]; rfl)
      simp only [hparsing hsome]
  refine ⟨hordered, fun hsending => ?_, ?_⟩
  · have hsome := h.parsing hsending
    dsimp only
    rw [hparsing hsome]
    exact hsome
  · refine ⟨h.outputs.closed, h.outputs.single, ?_, ?_, ?_⟩ <;> rw [hbegun]
    · exact h.outputs.bytes
    · exact h.outputs.given
    · exact h.outputs.world

theorem Device.Serves.receive (h : s.Serves L server w nodes) {data : List UInt8}
    {memory : CallbackMemory} (hmemory : Undisturbed s (.receive data memory))
    (hstep : deviceStep L server ops s (.receive data memory) = some t) :
    ∃ nodes', t.Serves L server w nodes' := by
  obtain ⟨delivery, hdelivery, rfl⟩ := Option.map_eq_some_iff.mp hstep
  obtain ⟨⟨nodes', hordered⟩, -, hdone, hparsing⟩ := h.ordered.receive hmemory hdelivery
  exact ⟨nodes', h.moved hordered hdone hparsing⟩

theorem Device.Serves.take (h : s.Serves L server w nodes)
    (hstep : deviceStep L server ops s .take = some t) :
    ∃ node rest, nodes = node :: rest ∧ t.Serves L server w rest := by
  obtain ⟨delivery, hdelivery, rfl⟩ := Option.map_eq_some_iff.mp hstep
  obtain ⟨hparsing, hdone, node, rest, hnodes, hordered⟩ := h.ordered.take hdelivery
  refine ⟨node, rest, hnodes, h.moved hordered hdone fun hsome => ?_⟩
  rw [hparsing] at hsome
  exact Bool.noConfusion hsome

theorem Device.Serves.account (h : s.Serves L server w nodes)
    (hstep : deviceStep L server ops s .account = some t) : t.Serves L server w nodes := by
  obtain ⟨delivery, hdelivery, rfl⟩ := Option.map_eq_some_iff.mp hstep
  obtain ⟨hordered, hdone, hparsing, -⟩ := h.ordered.account hdelivery
  refine h.moved hordered hdone fun hsome => ?_
  rw [hparsing] at hsome
  exact Bool.noConfusion hsome

theorem Device.Serves.parse (h : s.Serves L server w nodes)
    (hstep : deviceStep L server ops s .parse = some t) :
    s.sending = none ∧ t.delivery = s.delivery ∧ t.wire = s.wire ∧ t.sending.isSome ∧
      t.Serves L server w nodes := by
  simp only [deviceStep] at hstep
  split at hstep
  · rename_i message hsending hparsing
    obtain rfl := Option.some.inj hstep
    refine ⟨hsending, rfl, rfl, rfl, h.ordered, fun _ => by rw [hparsing]; rfl, ?_⟩
    have hbefore : s.begun = s.delivery.done := by
      rw [Device.begun_eq, hsending]
      exact List.append_nil _
    have hcalls := h.outputs.closed hsending
    have hworld := h.outputs.world
    have hbytes := h.outputs.bytes
    have hgiven := h.outputs.given
    rw [hbefore] at hworld hbytes hgiven
    simp only [hsending, Wire.left, hcalls, Option.getD_none, List.flatMap_nil,
      List.append_nil] at hbytes hgiven
    refine ⟨fun hnone => absurd hnone (Option.some_ne_none _), h.outputs.single, ?_, ?_, ?_⟩ <;>
      simp only [Device.begun_eq, Option.isSome_some, if_true, hparsing, Option.toList_some,
        answers_append, answers_singleton, ← hworld, payloads_append, Option.getD_some]
    · rw [List.flatMap_append, ← hbytes]
      simp [Wire.left, hcalls]
    · rw [← hgiven]
  · exact absurd hstep.symm (Option.some_ne_none t)

theorem Device.Serves.send (h : s.Serves L server w nodes) (hfits : Undisturbed s .send)
    (hstep : deviceStep L server ops s .send = some t) :
    s.sending.isSome ∧ t.sending.isSome ∧ t.delivery = s.delivery ∧
      t.wire.given.length = s.wire.given.length + 1 ∧ t.wire.stream = s.wire.stream ∧
      t.Serves L server w nodes := by
  simp only [deviceStep] at hstep
  split at hstep
  · rename_i payload rest hsending hcalls
    obtain ⟨wire, hwire, rfl⟩ := Option.map_eq_some_iff.mp hstep
    obtain ⟨hsingle, hgiven, hstream, hleft⟩ := wireStep_call hcalls (hfits payload rest hsending) hwire
    have hbegun : Device.begun { s with wire, sending := some rest } = s.begun := by
      simp only [Device.begun_eq, hsending]
      rfl
    refine ⟨by rw [hsending]; rfl, rfl, rfl, ?_, hstream, h.ordered,
      fun _ => h.parsing (by rw [hsending]; rfl), ?_⟩
    · rw [hgiven, List.length_append, List.length_singleton]
    have hbytesBefore := h.outputs.bytes
    have hgivenBefore := h.outputs.given
    simp only [hsending, Wire.left, hcalls, Option.getD_some, List.flatMap_nil, List.append_nil,
      List.flatMap_cons] at hbytesBefore hgivenBefore
    refine ⟨fun hnone => absurd hnone (Option.some_ne_none _), hsingle, ?_, ?_, ?_⟩ <;> rw [hbegun]
    · rw [← hbytesBefore, hstream, hleft, Option.getD_some, List.append_assoc]
    · rw [← hgivenBefore, hgiven, Option.getD_some, List.append_assoc, List.singleton_append]
    · exact h.outputs.world
  · exact absurd hstep.symm (Option.some_ne_none t)

theorem Device.Serves.write (h : s.Serves L server w nodes) {n : ℕ}
    (hstep : deviceStep L server ops s (.write n) = some t) :
    t.delivery = s.delivery ∧ t.sending = s.sending ∧ t.wire.given = s.wire.given ∧
      s.wire.stream.length < t.wire.stream.length ∧ t.Serves L server w nodes := by
  obtain ⟨wire, hwire, rfl⟩ := Option.map_eq_some_iff.mp hstep
  obtain ⟨hsingle, hgiven, hbytes, hlonger⟩ := wireStep_send h.outputs.single hwire
  refine ⟨rfl, rfl, hgiven, hlonger, h.ordered, h.parsing, fun hnone => ?_, hsingle, ?_, ?_, ?_⟩
  · -- A call in progress is part of a parse.
    have hcalls := h.outputs.closed hnone
    simp only [wireStep, hcalls, List.getElem?_nil] at hwire
    exact absurd hwire.symm (Option.some_ne_none wire)
  · dsimp only
    rw [hbytes]
    exact h.outputs.bytes
  · dsimp only
    rw [hgiven]
    exact h.outputs.given
  · exact h.outputs.world

theorem Device.Serves.finish (h : s.Serves L server w nodes)
    (hstep : deviceStep L server ops s .finish = some t) :
    s.sending.isSome ∧ t.sending = none ∧ t.delivery.parsing = none ∧ t.wire = s.wire ∧
      t.Serves L server w nodes := by
  simp only [deviceStep] at hstep
  split at hstep
  · rename_i hsending hcalls
    obtain ⟨delivery, hdelivery, rfl⟩ := Option.map_eq_some_iff.mp hstep
    have hsome := h.parsing (by rw [hsending]; rfl)
    obtain ⟨message, hparsing⟩ := Option.isSome_iff_exists.mp hsome
    obtain ⟨hordered, hdone, hnone⟩ := h.ordered.finish hparsing hdelivery
    have hbegun : Device.begun { s with delivery, sending := none } = s.begun := by
      simp only [Device.begun_eq, hdone, hsending, hparsing]
      simp
    refine ⟨by rw [hsending]; rfl, rfl, hnone, rfl, hordered, fun hsome => ?_,
      fun _ => hcalls, h.outputs.single, ?_, ?_, ?_⟩
    · exact Bool.noConfusion hsome
    · have hbytes := h.outputs.bytes
      rw [hsending] at hbytes
      rw [hbegun]
      exact hbytes
    · have hgiven := h.outputs.given
      rw [hsending] at hgiven
      rw [hbegun]
      exact hgiven
    · rw [hbegun]
      exact h.outputs.world
  · exact absurd hstep.symm (Option.some_ne_none t)

/-- **Step.** A step of any thread keeps the stream in order. -/
theorem deviceStep_serves (s : Device W) (a : DeviceAction) (t : Device W)
    (h : ∃ nodes, s.Serves L server w nodes) (ha : Undisturbed s a)
    (hstep : deviceStep L server ops s a = some t) : ∃ nodes, t.Serves L server w nodes := by
  obtain ⟨nodes, h⟩ := h
  cases a with
  | receive data memory => exact h.receive ha hstep
  | take =>
    obtain ⟨-, rest, -, ht⟩ := h.take hstep
    exact ⟨rest, ht⟩
  | parse => exact ⟨nodes, (h.parse hstep).2.2.2.2⟩
  | send => exact ⟨nodes, (h.send ha hstep).2.2.2.2.2⟩
  | write n => exact ⟨nodes, (h.write hstep).2.2.2.2⟩
  | finish => exact ⟨nodes, (h.finish hstep).2.2.2.2⟩
  | account => exact ⟨nodes, h.account hstep⟩

end Steps

/-! ## What came in -/

/-- An empty chunk does not count. -/
def DeviceAction.chunk : DeviceAction → Option (List UInt8)
  | .receive data _ => if data.length = 0 then none else some data
  | _ => none

def receivedChunks (actions : List DeviceAction) : List (List UInt8) := actions.filterMap DeviceAction.chunk

theorem chunk_internal {a : DeviceAction} (h : a.internal = true) : a.chunk = none := by
  cases a with
  | receive => exact absurd h Bool.false_ne_true
  | _ => rfl

/-- What the server makes of those chunks. -/
def answersTo (L : CJsonLib) (server : McpServer W) (w : W) (chunks : List (List UInt8)) :
    List (Event W) × W :=
  parseMessages L server (chunks.map fun data => ofMem (data ++ [0])) w

theorem answers_copies (server : McpServer W) (w : W) (chunks : List (List UInt8)) :
    answers L server w (copies chunks) = answersTo L server w chunks := by
  unfold answers answersTo
  congr 1
  apply List.ext_getElem
  · simp [copies]
  · intro i h h'
    simp [copies, Message.string]

section Chunks

variable {server : McpServer W} {ops : HwioOps} {w : W} {s t : Device W}

theorem deviceStep_chunks {a : DeviceAction} (hstep : deviceStep L server ops s a = some t) :
    t.delivery.chunks = s.delivery.chunks ++ a.chunk.toList := by
  have hkept : ∀ action, chunksOf [action] = [] →
      ∀ delivery, deliveryStep s.delivery action = some delivery →
        delivery.chunks = s.delivery.chunks ++ [] := by
    intro action haction delivery hstep
    rw [deliveryStep_chunks hstep, haction]
  cases a with
  | receive data memory =>
    obtain ⟨delivery, hdelivery, rfl⟩ := Option.map_eq_some_iff.mp hstep
    dsimp only
    rw [deliveryStep_chunks hdelivery, chunksOf, DeviceAction.chunk]
    split <;> rfl
  | take =>
    obtain ⟨delivery, hdelivery, rfl⟩ := Option.map_eq_some_iff.mp hstep
    exact hkept _ rfl delivery hdelivery
  | account =>
    obtain ⟨delivery, hdelivery, rfl⟩ := Option.map_eq_some_iff.mp hstep
    exact hkept _ rfl delivery hdelivery
  | write n =>
    obtain ⟨wire, -, rfl⟩ := Option.map_eq_some_iff.mp hstep
    exact (List.append_nil _).symm
  | parse =>
    simp only [deviceStep] at hstep
    split at hstep
    · obtain rfl := Option.some.inj hstep
      exact (List.append_nil _).symm
    · exact absurd hstep.symm (Option.some_ne_none t)
  | send =>
    simp only [deviceStep] at hstep
    split at hstep
    · obtain ⟨wire, -, rfl⟩ := Option.map_eq_some_iff.mp hstep
      exact (List.append_nil _).symm
    · exact absurd hstep.symm (Option.some_ne_none t)
  | finish =>
    simp only [deviceStep] at hstep
    split at hstep
    · obtain ⟨delivery, hdelivery, rfl⟩ := Option.map_eq_some_iff.mp hstep
      refine hkept _ ?_ delivery hdelivery
      split <;> rfl
    · exact absurd hstep.symm (Option.some_ne_none t)

theorem run_chunks {actions : List DeviceAction}
    (hrun : Runs.run (deviceStep L server ops) s actions = some t) :
    t.delivery.chunks = s.delivery.chunks ++ receivedChunks actions := by
  induction actions generalizing s with
  | nil =>
    obtain rfl : s = t := Option.some.inj hrun
    exact (List.append_nil _).symm
  | cons a rest ih =>
    obtain ⟨u, hstep, hrun⟩ := Runs.run_cons.mp hrun
    rw [ih hrun, deviceStep_chunks hstep, List.append_assoc, receivedChunks, receivedChunks, List.filterMap_cons]
    cases a.chunk <;> rfl

theorem Device.Serves.begun_prefix {nodes : List (Addr × Message)} (h : s.Serves L server w nodes) :
    s.begun <+: copies s.delivery.chunks := by
  rw [← h.ordered.order, Device.begun_eq, List.append_assoc, List.prefix_append_right_inj]
  split
  · exact List.prefix_append _ _
  · exact List.nil_prefix

theorem payloads_begin (L : CJsonLib) (server : McpServer W) (w : W) {begun all : List Message}
    (h : begun <+: all) :
    payloads (answers L server w begun).1 <+: payloads (answers L server w all).1 := by
  obtain ⟨rest, rfl⟩ := h
  rw [answers_append, payloads_append]
  exact List.prefix_append _ _

theorem flatMap_begins {xs ys : List CStr} (h : xs <+: ys) :
    xs.flatMap CStr.bytes <+: ys.flatMap CStr.bytes := by
  obtain ⟨rest, rfl⟩ := h
  rw [List.flatMap_append]
  exact List.prefix_append _ _

theorem Device.Serves.stream_prefix {nodes : List (Addr × Message)}
    (h : s.Serves L server w nodes) : s.wire.stream <+:
      (payloads (answersTo L server w s.delivery.chunks).1).flatMap CStr.bytes := by
  rw [← answers_copies]
  refine List.IsPrefix.trans ?_ (flatMap_begins (payloads_begin L server w h.begun_prefix))
  rw [← h.outputs.bytes, List.append_assoc]
  exact List.prefix_append _ _

theorem Device.Serves.idle {nodes : List (Addr × Message)} (h : s.Serves L server w nodes)
    (hidle : s.Idle) :
    s.wire.stream = (payloads (answersTo L server w s.delivery.chunks).1).flatMap CStr.bytes ∧
      s.world = (answersTo L server w s.delivery.chunks).2 := by
  have hnodes : nodes = [] := by
    have hhead := h.ordered.sched.queue.chain.head_eq
    rw [hidle.queue] at hhead
    simpa using hhead.symm
  have hbegun : s.begun = copies s.delivery.chunks := by
    rw [← h.ordered.order, Device.begun_eq, hidle.sending, hnodes]
    simp [Delivery.parsing, hidle.inline, SchedSystem.current, hidle.worker]
  rw [← answers_copies, ← hbegun]
  refine ⟨?_, h.outputs.world⟩
  have hbytes := h.outputs.bytes
  simpa [hidle.sending, Wire.left, h.outputs.closed hidle.sending] using hbytes

end Chunks

/-- **Run.** The stream is always in order. -/
theorem run_serves {server : McpServer W} {ops : HwioOps} {worker : Bool} {w : W}
    {actions : List DeviceAction} {s : Device W}
    (halong : Runs.Along (deviceStep L server ops) Undisturbed (.start worker w) actions)
    (hrun : Runs.run (deviceStep L server ops) (.start worker w) actions = some s) :
    (∃ nodes, s.Serves L server w nodes) ∧ s.delivery.chunks = receivedChunks actions :=
  ⟨Runs.run_invariant (fun s : Device W => ∃ nodes, s.Serves L server w nodes) deviceStep_serves
    ⟨[], start_serves L server worker w⟩ halong hrun, run_chunks hrun⟩

/-! ## What is left to do -/

section Work

variable {server : McpServer W} {ops : HwioOps} {w : W} {s t : Device W}

/-- What the thread that holds a message has before it. -/
def Device.stage (s : Device W) : ℕ :=
  match s.sending, s.delivery.parsing, s.delivery.sched.worker with
  | some _, _, _ => 2
  | none, some _, _ => 3
  | none, none, .finished => 1
  | none, none, _ => 0

/-- The bytes and the payloads that are still to go, the messages in the queue, and the stages. -/
def Device.work (L : CJsonLib) (server : McpServer W) (w : W) (s : Device W) : ℕ :=
  (((payloads (answersTo L server w s.delivery.chunks).1).flatMap CStr.bytes).length -
      s.wire.stream.length) +
    ((payloads (answersTo L server w s.delivery.chunks).1).length - s.wire.given.length) +
    5 * s.delivery.sched.sched.pending + s.stage

/-- The server is in order, and every payload for its chunks fits the cast of its size. -/
def Device.Working (L : CJsonLib) (server : McpServer W) (w : W) (s : Device W) : Prop :=
  (∃ nodes, s.Serves L server w nodes) ∧
    ∀ payload ∈ payloads (answersTo L server w s.delivery.chunks).1, payload.strlen < 2 ^ 32

theorem Device.Serves.given_length {nodes : List (Addr × Message)} (h : s.Serves L server w nodes) :
    s.wire.given.length ≤ (payloads (answersTo L server w s.delivery.chunks).1).length := by
  have hbegins := payloads_begin L server w h.begun_prefix
  rw [answers_copies, ← h.outputs.given] at hbegins
  have := hbegins.length_le
  rw [List.length_append] at this
  omega

theorem Device.Working.undisturbed (h : s.Working L server w) {a : DeviceAction}
    (ha : a.internal = true) : Undisturbed s a := by
  obtain ⟨⟨nodes, h⟩, hfits⟩ := h
  cases a with
  | receive => exact Bool.noConfusion ha
  | send =>
    intro payload rest hsending
    have hbegins := payloads_begin L server w h.begun_prefix
    rw [answers_copies, ← h.outputs.given, hsending] at hbegins
    exact hfits payload (hbegins.mem (by simp))
  | _ => trivial

theorem Device.stage_le (s : Device W) : s.stage ≤ 3 := by
  unfold Device.stage
  split <;> decide

theorem Device.stage_sending (h : s.sending.isSome) : s.stage = 2 := by
  obtain ⟨payloads, hsending⟩ := Option.isSome_iff_exists.mp h
  simp only [Device.stage, hsending]

theorem Device.stage_parsing (h : s.sending = none) (hparsing : s.delivery.parsing.isSome) :
    s.stage = 3 := by
  obtain ⟨message, hparsing⟩ := Option.isSome_iff_exists.mp hparsing
  simp only [Device.stage, h, hparsing]

theorem Device.stage_between (h : s.sending = none) (hparsing : s.delivery.parsing = none) :
    s.stage = if s.delivery.sched.worker = .finished then 1 else 0 := by
  simp only [Device.stage, h, hparsing]
  cases s.delivery.sched.worker <;> rfl

theorem Device.Serves.sending_none {nodes : List (Addr × Message)} (h : s.Serves L server w nodes)
    (hparsing : s.delivery.parsing = none) : s.sending = none := by
  cases hsending : s.sending with
  | none => rfl
  | some payloads =>
    have hsome := h.parsing (by rw [hsending]; rfl)
    rw [hparsing] at hsome
    exact Bool.noConfusion hsome

/-- **Step.** Every step but a receive leaves less to do. -/
theorem deviceStep_working (s : Device W) (a : DeviceAction) (t : Device W)
    (h : s.Working L server w) (ha : a.internal = true)
    (hstep : deviceStep L server ops s a = some t) :
    t.Working L server w ∧ t.work L server w < s.work L server w := by
  have hundisturbed := h.undisturbed ha
  obtain ⟨⟨nodes, hs⟩, hfits⟩ := h
  have ht := deviceStep_serves s a t ⟨nodes, hs⟩ hundisturbed hstep
  have hchunks : t.delivery.chunks = s.delivery.chunks := by
    rw [deviceStep_chunks hstep, chunk_internal ha, Option.toList_none, List.append_nil]
  refine ⟨⟨ht, hchunks ▸ hfits⟩, ?_⟩
  obtain ⟨nodes', ht⟩ := ht
  have hstream := ht.stream_prefix.length_le
  have hgiven := ht.given_length
  unfold Device.work
  rw [hchunks] at hstream hgiven ⊢
  have hpending := hs.ordered.sched.pending
  cases a with
  | receive => exact Bool.noConfusion ha
  | take =>
    obtain ⟨node, rest, rfl, hrest⟩ := hs.take hstep
    have hrest := hrest.ordered.sched.pending
    have hstage := t.stage_le
    obtain ⟨delivery, -, rfl⟩ := Option.map_eq_some_iff.mp hstep
    rw [List.length_cons] at hpending
    dsimp only at hrest ⊢
    omega
  | parse =>
    obtain ⟨hsending, hdelivery, hwire, hbegun, -⟩ := hs.parse hstep
    have hparsing := ht.parsing hbegun
    rw [hdelivery] at hparsing
    rw [Device.stage_parsing hsending hparsing, Device.stage_sending hbegun, hdelivery, hwire]
    omega
  | send =>
    obtain ⟨hsending, hmore, hdelivery, hlonger, hsame, -⟩ := hs.send hundisturbed hstep
    rw [Device.stage_sending hsending, Device.stage_sending hmore, hdelivery, hsame]
    omega
  | write n =>
    obtain ⟨hdelivery, hsending, hsame, hlonger, -⟩ := hs.write hstep
    have hstage : t.stage = s.stage := by simp only [Device.stage, hdelivery, hsending]
    rw [hstage, hdelivery, hsame]
    omega
  | finish =>
    obtain ⟨hsending, hnone, hparsing, hwire, hrest⟩ := hs.finish hstep
    have hrest := hrest.ordered.sched.pending
    rw [Device.stage_sending hsending, Device.stage_between hnone hparsing, hwire, hrest, hpending]
    split <;> omega
  | account =>
    obtain ⟨delivery, hdelivery, rfl⟩ := Option.map_eq_some_iff.mp hstep
    obtain ⟨hordered, -, hbefore, hafter, hfinished, hwaiting⟩ := hs.ordered.account hdelivery
    have hnone := hs.sending_none hbefore
    have hrest := hordered.sched.pending
    rw [Device.stage_between hnone hbefore, if_pos hfinished,
      Device.stage_between (s := { s with delivery }) hnone hafter, if_neg (by simp [hwaiting])]
    dsimp only
    omega

theorem wireStep_call_isSome (ops : HwioOps) (wire : Wire) (payload : CStr) :
    (wireStep ops wire (.call payload)).isSome := by
  unfold wireStep
  dsimp only
  split <;> rfl

theorem wireStep_send_isSome (ops : HwioOps) {wire : Wire} {call : WriteCall}
    (hcalls : wire.calls = [call]) (hleft : call.left ≠ []) :
    (wireStep ops wire (.send 0 1)).isSome := by
  simp only [wireStep, hcalls, List.getElem?_cons_zero]
  rw [if_pos ⟨le_rfl, List.length_pos_iff.mpr hleft⟩]
  split <;> rfl

theorem Delivery.finish_isSome {d : Delivery} (h : d.parsing.isSome) :
    (deliveryStep d (if d.inline.isSome then .parse else .worker .call)).isSome := by
  cases hinline : d.inline with
  | some message =>
    rw [Option.isSome_some, if_pos rfl, deliveryStep, hinline]
    rfl
  | none =>
    rw [Delivery.parsing, hinline] at h
    cases hworker : d.sched.worker with
    | running task =>
      simpa [deliveryStep, schedStep, SchedAction.byWorker, SchedSystem.current, hworker] using h
    | _ => simp [SchedSystem.current, hworker] at h

theorem Device.Serves.between {nodes : List (Addr × Message)} (h : s.Serves L server w nodes)
    (hsending : s.sending = none) (hparsing : s.delivery.parsing = none) :
    s.Idle ∨ (deviceStep L server ops s .take).isSome ∨ (deviceStep L server ops s .account).isSome := by
  obtain ⟨hinline, hcurrent⟩ : s.delivery.inline = none ∧ s.delivery.sched.current.head? = none := by
    simpa [Delivery.parsing] using hparsing
  cases hworker : s.delivery.sched.worker with
  | waiting =>
    cases nodes with
    | nil => exact .inl ⟨h.ordered.sched.queue.chain.head_eq, hworker, hinline, hsending⟩
    | cons node rest =>
      obtain ⟨queue, hpop, -⟩ := h.ordered.sched.queue.pop_cons
      refine .inr (.inl ?_)
      simp only [deviceStep, deliveryStep, schedStep, SchedAction.byWorker, if_true, hworker,
        workerTake, hpop, Option.map_some, Option.isSome_some]
  | running task =>
    -- The message of a task that is running is being parsed.
    obtain ⟨node, hnode⟩ := Option.isSome_iff_exists.mp (h.ordered.sched.taken task hworker).1
    simp [SchedSystem.current, hworker, hnode] at hcurrent
  | finished =>
    refine .inr (.inr ?_)
    simp only [deviceStep, deliveryStep, schedStep, SchedAction.byWorker, if_true, hworker,
      Option.map_some, Option.isSome_some]
  | exited => exact absurd h.ordered.idle (h.ordered.sched.exited hworker).2

theorem Device.Working.next (ops : HwioOps) (h : s.Working L server w) :
    s.Idle ∨ ∃ a t, DeviceAction.internal a = true ∧ deviceStep L server ops s a = some t := by
  obtain ⟨⟨nodes, h⟩, -⟩ := h
  have hstep : ∀ a, DeviceAction.internal a = true → (deviceStep L server ops s a).isSome →
      s.Idle ∨ ∃ a t, DeviceAction.internal a = true ∧ deviceStep L server ops s a = some t := by
    intro a ha hsome
    obtain ⟨t, ht⟩ := Option.isSome_iff_exists.mp hsome
    exact .inr ⟨a, t, ha, ht⟩
  cases hsending : s.sending with
  | none =>
    cases hparsing : s.delivery.parsing with
    | none =>
      rcases h.between hsending hparsing with hidle | htake | haccount
      · exact .inl hidle
      · exact hstep .take rfl htake
      · exact hstep .account rfl haccount
    | some message => exact hstep .parse rfl (by simp only [deviceStep, hsending, hparsing, Option.isSome_some])
  | some left =>
    rcases h.outputs.single with hcalls | ⟨call, hcalls, hleft⟩
    · cases left with
      | nil =>
        refine hstep .finish rfl ?_
        simp only [deviceStep, hsending, hcalls, Option.isSome_map]
        exact Delivery.finish_isSome (h.parsing (by rw [hsending]; rfl))
      | cons payload rest =>
        refine hstep .send rfl ?_
        simp only [deviceStep, hsending, hcalls, Option.isSome_map]
        exact wireStep_call_isSome ops s.wire payload
    · refine hstep (.write 1) rfl ?_
      simp only [deviceStep, Option.isSome_map]
      exact wireStep_send_isSome ops hcalls hleft

theorem Device.Serves.work_le {nodes : List (Addr × Message)} (h : s.Serves L server w nodes) :
    let out := payloads (answersTo L server w s.delivery.chunks).1
    s.work L server w ≤
      (out.flatMap CStr.bytes).length + out.length + 5 * s.delivery.chunks.length + 3 := by
  have hqueued : nodes.length ≤ s.delivery.chunks.length := by
    have horder := congrArg List.length h.ordered.order
    simp only [copies, List.length_append, List.length_map, List.length_mapIdx] at horder
    omega
  have hpending := h.ordered.sched.pending
  have hstage := s.stage_le
  dsimp only [Device.work]
  omega

end Work

/-- The threads go from one state to the other without the peer. -/
def Device.GoesOn (L : CJsonLib) (server : McpServer W) (ops : HwioOps) (s : Device W)
    (more : List DeviceAction) (t : Device W) : Prop :=
  (∀ a ∈ more, a.internal = true) ∧ Runs.run (deviceStep L server ops) s more = some t

section GoesOn

variable {server : McpServer W} {ops : HwioOps} {worker : Bool} {w : W} {s t : Device W}
  {actions more : List DeviceAction}

theorem receivedChunks_internal (h : ∀ a ∈ more, a.internal = true) :
    receivedChunks (actions ++ more) = receivedChunks actions := by
  have hnone : receivedChunks more = [] :=
    List.filterMap_eq_nil_iff.mpr fun a ha => chunk_internal (h a ha)
  rw [receivedChunks, List.filterMap_append]
  exact (congrArg _ hnone).trans (List.append_nil _)

theorem Device.GoesOn.append (h : s.GoesOn L server ops more t) (hs : s.Working L server w)
    (halong : Runs.Along (deviceStep L server ops) Undisturbed (.start worker w) actions)
    (hrun : Runs.run (deviceStep L server ops) (.start worker w) actions = some s) :
    t.Working L server w ∧
      Runs.Along (deviceStep L server ops) Undisturbed (.start worker w) (actions ++ more) ∧
      Runs.run (deviceStep L server ops) (.start worker w) (actions ++ more) = some t := by
  have hinternal := (Runs.along_iff_forall h.2).mpr h.1
  have hstep : ∀ s a t, Device.Working L server w s → DeviceAction.internal a = true →
      deviceStep L server ops s a = some t → t.Working L server w :=
    fun s a t hs ha hstep => (deviceStep_working s a t hs ha hstep).1
  refine ⟨Runs.run_invariant _ hstep hs hinternal h.2, halong.append hrun ?_, ?_⟩
  · exact hinternal.imp hstep (fun _ _ hs ha => hs.undisturbed ha) hs
  · rw [Runs.run_append, hrun]
    exact h.2

theorem Device.Working.drained (ops : HwioOps) (h : s.Working L server w) :
    ∃ more t, s.GoesOn L server ops more t ∧ t.Idle := by
  obtain ⟨more, t, halong, hrun, -, hidle⟩ :=
    Runs.exists_final deviceStep_working (fun _ hs => hs.next ops) h
  exact ⟨more, t, ⟨(Runs.along_iff_forall hrun).mp halong, hrun⟩, hidle⟩

end GoesOn

/-! ## Chunk after chunk -/

def posted (a : Addr) (data : List UInt8) : DeviceAction := .receive data ⟨true, some a⟩

/-- There is a worker, and from some address on its heap is empty. -/
structure Delivery.Spare (d : Delivery) : Prop where
  worker : d.worker = true
  heap : ∃ n, ∀ a, n ≤ a → d.sched.sched.queue.heap a = none

/-- The server is idle, and can post another chunk. -/
structure Device.Ready (L : CJsonLib) (server : McpServer W) (w : W) (s : Device W) : Prop where
  working : s.Working L server w
  idle : s.Idle
  spare : s.delivery.Spare

section Posted

variable {server : McpServer W} {ops : HwioOps} {w : W} {s t : Device W} {data : List UInt8}

theorem chunk_posted (a : Addr) (hdata : data.length ≠ 0) : (posted a data).chunk = some data :=
  if_neg hdata

theorem Delivery.Spare.step {d e : Delivery} (h : d.Spare) {action : SchedAction Message}
    (hstep : deliveryStep d (.worker action) = some e) : e.Spare := by
  obtain ⟨hworker, sched, hsched, rfl⟩ := deliveryStep_worker hstep
  obtain ⟨n, hheap⟩ := h.heap
  exact ⟨h.worker, n, fun a ha => schedStep_heap_none hworker hsched (hheap a ha)⟩

theorem Delivery.Spare.receive {d : Delivery} (h : d.Spare) (hfree : d.inline = none)
    (hidle : d.sched.destroyer = .idle) (hdata : data.length ≠ 0) :
    ∃ a e, deliveryStep d (.receive data ⟨true, some a⟩) = some e ∧ e.Spare := by
  obtain ⟨n, hheap⟩ := h.heap
  let message : Message := ⟨d.chunks.length, data ++ [0]⟩
  let sched := schedPost d.sched (some message) (some n)
  refine ⟨n, { d with chunks := d.chunks ++ [data], sched }, ?_, h.worker, n + 1, fun a ha => ?_⟩
  · have hfresh : ¬((some n).any fun a => (d.sched.sched.queue.heap a).isSome) = true := by
      simp [hheap n le_rfl]
    rw [deliveryStep, if_pos hfree, transportReceiveCallback, if_neg hdata]
    dsimp only
    rw [if_pos h.worker, if_pos rfl, schedStep, if_neg hfresh, Option.map_some,
      if_neg (by simp [bgSchedPost])]
  · have hposted : sched = _ := schedPost_posted hidle message n
    dsimp only
    rw [hposted]
    exact Queue.push_heap_none (hheap a (Nat.le_of_succ_le ha)) (Nat.ne_of_gt ha) message

theorem deviceStep_spare {a : DeviceAction} (h : s.delivery.Spare) (ha : a.internal = true)
    (hstep : deviceStep L server ops s a = some t) : t.delivery.Spare := by
  cases a with
  | receive => exact Bool.noConfusion ha
  | take =>
    obtain ⟨delivery, hdelivery, rfl⟩ := Option.map_eq_some_iff.mp hstep
    exact h.step hdelivery
  | account =>
    obtain ⟨delivery, hdelivery, rfl⟩ := Option.map_eq_some_iff.mp hstep
    exact h.step hdelivery
  | write n =>
    obtain ⟨wire, -, rfl⟩ := Option.map_eq_some_iff.mp hstep
    exact h
  | parse =>
    simp only [deviceStep] at hstep
    split at hstep
    · obtain rfl := Option.some.inj hstep
      exact h
    · exact absurd hstep.symm (Option.some_ne_none t)
  | send =>
    simp only [deviceStep] at hstep
    split at hstep
    · obtain ⟨wire, -, rfl⟩ := Option.map_eq_some_iff.mp hstep
      exact h
    · exact absurd hstep.symm (Option.some_ne_none t)
  | finish =>
    simp only [deviceStep] at hstep
    split at hstep
    · obtain ⟨delivery, hdelivery, rfl⟩ := Option.map_eq_some_iff.mp hstep
      split at hdelivery
      · obtain ⟨message, -, rfl⟩ := Option.map_eq_some_iff.mp hdelivery
        exact ⟨h.worker, h.heap⟩
      · exact h.step hdelivery
    · exact absurd hstep.symm (Option.some_ne_none t)

theorem start_ready (L : CJsonLib) (server : McpServer W) (w : W) :
    (Device.start true w).Ready L server w where
  working := ⟨⟨[], start_serves L server true w⟩, fun _ h => absurd h List.not_mem_nil⟩
  idle := ⟨rfl, rfl, rfl, rfl⟩
  spare := ⟨rfl, 0, fun _ _ => rfl⟩

theorem Device.Ready.receive (h : s.Ready L server w) (ops : HwioOps) (hdata : data.length ≠ 0)
    (hfits : ∀ payload ∈ payloads (answersTo L server w (s.delivery.chunks ++ [data])).1,
      payload.strlen < 2 ^ 32) :
    ∃ a t, Undisturbed s (posted a data) ∧ deviceStep L server ops s (posted a data) = some t ∧
      t.Working L server w ∧ t.delivery.Spare := by
  obtain ⟨⟨⟨nodes, hserves⟩, -⟩, hidle, hspare⟩ := h
  obtain ⟨a, delivery, hdelivery, hroom⟩ :=
    hspare.receive hidle.inline hserves.ordered.idle hdata
  have hundisturbed : Undisturbed s (posted a data) := fun _ => ⟨rfl, rfl⟩
  have hstep : deviceStep L server ops s (posted a data) = some { s with delivery } := by
    rw [posted, deviceStep, hdelivery, Option.map_some]
  have hchunks := deviceStep_chunks hstep
  rw [chunk_posted a hdata] at hchunks
  refine ⟨a, _, hundisturbed, hstep, ⟨?_, hchunks ▸ hfits⟩, hroom⟩
  exact deviceStep_serves s _ _ ⟨nodes, hserves⟩ hundisturbed hstep

/-- **Step.** A chunk is posted, and the threads do all that there is to do. -/
theorem Device.Ready.post (h : s.Ready L server w) (ops : HwioOps) (hdata : data.length ≠ 0)
    (hfits : ∀ payload ∈ payloads (answersTo L server w (s.delivery.chunks ++ [data])).1,
      payload.strlen < 2 ^ 32) :
    ∃ a more t, (∀ b ∈ more, b.internal = true) ∧
      Runs.Along (deviceStep L server ops) Undisturbed s (posted a data :: more) ∧
      Runs.run (deviceStep L server ops) s (posted a data :: more) = some t ∧
      t.Ready L server w ∧ t.delivery.chunks = s.delivery.chunks ++ [data] := by
  obtain ⟨a, u, hundisturbed, hstep, hworking, hspare⟩ := h.receive ops hdata hfits
  obtain ⟨more, t, ⟨hmore, hrun⟩, hidle⟩ := hworking.drained ops
  have hinternal := (Runs.along_iff_forall hrun).mpr hmore
  have hkeep : ∀ s a t, (Device.Working L server w s ∧ s.delivery.Spare) →
      DeviceAction.internal a = true → deviceStep L server ops s a = some t →
      t.Working L server w ∧ t.delivery.Spare := fun s a t hs ha hstep =>
    ⟨(deviceStep_working s a t hs.1 ha hstep).1, deviceStep_spare hs.2 ha hstep⟩
  have halong : Runs.Along (deviceStep L server ops) Undisturbed u more :=
    hinternal.imp hkeep (fun _ _ hs ha => hs.1.undisturbed ha) ⟨hworking, hspare⟩
  obtain ⟨ht, hroom⟩ := Runs.run_invariant _ hkeep ⟨hworking, hspare⟩ hinternal hrun
  have hboth := Runs.run_cons.mpr ⟨u, hstep, hrun⟩
  refine ⟨a, more, t, hmore, ⟨hundisturbed, fun v hv => ?_⟩, hboth, ⟨ht, hidle, hroom⟩, ?_⟩
  · obtain rfl : u = v := Option.some.inj (hstep.symm.trans hv)
    exact halong
  · have hreceived : receivedChunks (posted a data :: more) = [data] := by
      rw [show posted a data :: more = [posted a data] ++ more from rfl,
        receivedChunks_internal hmore, receivedChunks, List.filterMap_cons, chunk_posted a hdata]
      rfl
    rw [run_chunks hboth, hreceived]

theorem mem_payloads_append {chunks more : List (List UInt8)} {payload : CStr}
    (h : payload ∈ payloads (answersTo L server w chunks).1) :
    payload ∈ payloads (answersTo L server w (chunks ++ more)).1 := by
  rw [answersTo, List.map_append, parseMessages_append, payloads_append]
  exact List.mem_append_left _ h

/-- **Run.** Whatever the chunks are, there is a run in which they are posted and all answered. -/
theorem exists_run_ready (ops : HwioOps) {chunks : List (List UInt8)}
    (hchunks : ∀ data ∈ chunks, data.length ≠ 0)
    (hfits : ∀ payload ∈ payloads (answersTo L server w chunks).1, payload.strlen < 2 ^ 32) :
    ∃ actions s, Runs.Along (deviceStep L server ops) Undisturbed (.start true w) actions ∧
      Runs.run (deviceStep L server ops) (.start true w) actions = some s ∧
      s.Ready L server w ∧ receivedChunks actions = chunks := by
  induction chunks using List.reverseRecOn with
  | nil => exact ⟨[], _, trivial, rfl, start_ready L server w, rfl⟩
  | append_singleton chunks data ih =>
    obtain ⟨hbefore, hdata⟩ := List.forall_mem_append.mp hchunks
    obtain ⟨actions, s, halong, hrun, hready, hreceived⟩ :=
      ih hbefore fun payload h => hfits payload (mem_payloads_append h)
    have hsofar : s.delivery.chunks = chunks := (run_chunks hrun).trans hreceived
    obtain ⟨a, more, t, -, hmore, hrun', ht, hlast⟩ := hready.post ops
      (hdata data (List.mem_singleton.mpr rfl)) (hsofar.symm ▸ hfits)
    have hall : Runs.run (deviceStep L server ops) (.start true w) (actions ++ posted a data :: more) =
        some t := by
      rw [Runs.run_append, hrun]
      exact hrun'
    refine ⟨_, t, halong.append hrun hmore, hall, ht, ?_⟩
    rw [← hsofar, ← hlast, run_chunks hall]
    rfl

end Posted

/-! ## The lengths of replies -/

theorem strlen_resultReply (hP : L.PrintsCompactly) (id : Int32) (result : CJson) :
    (L.print (resultReply id result)).strlen =
      (L.print (.number id.toInt)).strlen + (L.print result).strlen + 33 := by
  have hlit : ∀ s : CStr, Json.IsPlain s → (L.print (.string s)).strlen = s.strlen + 2 :=
    fun s => hP.strlen_string
  rw [resultReply]
  simp only [hP.strlen_object, List.map_cons, List.map_nil, List.sum_cons, List.sum_nil,
    List.length_cons, List.length_nil]
  simp (disch := decide) only [hlit]
  simp only [show (lit "jsonrpc").strlen = 7 from rfl, show (lit "2.0").strlen = 3 from rfl,
    show (lit "id").strlen = 2 from rfl, show (lit "result").strlen = 6 from rfl]
  omega

theorem strlen_errorReply (hP : L.PrintsCompactly) (id : Int32) (message : CStr) :
    (L.print (errorReply id message)).strlen =
      (L.print (.number id.toInt)).strlen + (L.print (.string message)).strlen + 44 := by
  have hlit : ∀ s : CStr, Json.IsPlain s → (L.print (.string s)).strlen = s.strlen + 2 :=
    fun s => hP.strlen_string
  rw [errorReply]
  simp only [hP.strlen_object, List.map_cons, List.map_nil, List.sum_cons, List.sum_nil,
    List.length_cons, List.length_nil]
  simp (disch := decide) only [hlit]
  simp only [show (lit "jsonrpc").strlen = 7 from rfl, show (lit "2.0").strlen = 3 from rfl,
    show (lit "id").strlen = 2 from rfl, show (lit "error").strlen = 5 from rfl,
    show (lit "message").strlen = 7 from rfl]
  omega

theorem strlen_id_le (id : Int32) : (CJsonLib.reference.print (.number id.toInt)).strlen ≤ 11 := by
  have hid : id.toInt.natAbs < 10 ^ 10 := by
    have hmin := id.le_toInt
    have hmax := id.toInt_lt
    omega
  have hprint : CJsonLib.reference.print (.number id.toInt) = Json.printInt id.toInt := by
    simp only [CJsonLib.reference, Json.print, Json.printNumber_intCast]
  rw [hprint]
  exact Json.strlen_printInt_le id.toInt (by decide) hid

/-! ## A request that no tool serves -/

/-- A request for a method that no server has. -/
def nopText (id : Int32) : CStr := CJsonLib.reference.print (requestJson id (lit "nop") (.object []))

def nopReply (id : Int32) : CStr :=
  CJsonLib.reference.print (errorReply id (lit "Method not implemented: nop"))

theorem requestOf_nopText (id : Int32) :
    requestOf CJsonLib.reference (nopText id) = some ⟨lit "nop", some (.object []), id⟩ :=
  requestOf_requestJson CJsonLib.reference_roundTrips id _ (by simp)

theorem parse_nopText {W : Type} (server : McpServer W) (id : Int32) (w : W) :
    mcpServerParseMessage CJsonLib.reference server (nopText id) w = ([.send (nopReply id)], w) := by
  have hmessage : message128 (lit "Method not implemented: " ++ lit "nop") =
    lit "Method not implemented: nop" := by decide
  rw [parseMessage_eq, requestOf_nopText]
  dsimp only [dispatch]
  rw [if_neg (by decide), if_neg (by decide), if_neg (by decide), hmessage]
  rfl

theorem answersTo_nopText {W : Type} (server : McpServer W) (ids : List Int32) (w : W) :
    answersTo CJsonLib.reference server w (ids.map fun id => (nopText id).bytes) =
      (ids.map fun id => .send (nopReply id), w) := by
  induction ids with
  | nil => rfl
  | cons id rest ih =>
    rw [answersTo] at ih ⊢
    rw [List.map_cons, List.map_cons, ofMem_terminated, parseMessages, parse_nopText, ih]
    rfl

theorem nopReply_strlen (id : Int32) : (nopReply id).strlen < 2 ^ 32 := by
  have hid := strlen_id_le id
  have hP := CJsonLib.reference_printsCompactly
  rw [nopReply, strlen_errorReply hP, hP.strlen_string (by decide),
    show (lit "Method not implemented: nop").strlen = 27 from rfl]
  omega

theorem nopText_length (id : Int32) : (nopText id).bytes.length ≠ 0 := Nat.succ_ne_zero _

theorem nopText_fits {W : Type} (server : McpServer W) (ids : List Int32) (w : W) :
    ∀ payload ∈ payloads (answersTo CJsonLib.reference server w
      (ids.map fun id => (nopText id).bytes)).1, payload.strlen < 2 ^ 32 := by
  intro payload hpayload
  rw [answersTo_nopText, payloads, List.filterMap_map] at hpayload
  obtain ⟨id, -, hid⟩ := List.mem_filterMap.mp hpayload
  exact Option.some.inj hid ▸ nopReply_strlen id

/-! ## What the client reads -/

theorem answersTo_requests (hO : L.ReadsOneObject) (server : McpServer W)
    {chunks : List (List UInt8)} {rs : List CStr} (hrs : ∀ r ∈ rs, (requestOf L r).isSome)
    (h : List.Forall₂ (fun chunk r => r.bytes <+: chunk) chunks rs) (w : W) :
    answersTo L server w chunks = parseMessages L server rs w := by
  unfold answersTo
  induction h generalizing w with
  | nil => rfl
  | @cons chunk r chunks rs hbegins _ ih =>
    obtain ⟨rest, rfl⟩ := hbegins
    have hr := hrs r List.mem_cons_self
    rw [List.map_cons, List.append_assoc, ofMem_append, parseMessages,
      parseMessage_append hO server hr, ih fun r h => hrs r (List.mem_cons_of_mem _ h)]
    rfl

theorem answersTo_texts (hO : L.ReadsOneObject) (server : McpServer W) {α : Type} {text : α → CStr}
    (htext : ∀ a, (requestOf L (text a)).isSome) {chunks : List (List UInt8)} {asks : List α}
    (h : List.Forall₂ (fun chunk a => (text a).bytes <+: chunk) chunks asks) (w : W) :
    answersTo L server w chunks = parseMessages L server (asks.map text) w := by
  refine answersTo_requests hO server (fun r hr => ?_) (List.forall₂_map_right_iff.mpr h) w
  obtain ⟨a, -, rfl⟩ := List.mem_map.mp hr
  exact htext a

theorem serve_hears (hL : L.RoundTrips) {server : McpServer W} (hs : server.InStep)
    (rs : List Request) (w : W) :
    Hears L (payloads (serve L server rs w).1) (rs.map fun r => .reply r.id.toInt) := by
  induction rs generalizing w with
  | nil => exact .nil
  | cons r rest ih =>
    obtain ⟨payload, v, hpayload, hcarries⟩ := dispatch_sendsReply hL hs r w
    rw [serve, payloads_append, hpayload, List.singleton_append]
    exact .cons ⟨v, hcarries⟩ (ih _)

/-- Whatever the threads do in which order, and however the socket cuts the payloads, the peer
gets what the server sends for the chunks, in their order, and all of it once the server is idle.
When each chunk begins with the next request of the client, the client reads the replies to its
requests off the stream, one each and in their order. -/
theorem device_answers (hL : L.RoundTrips) (hP : L.PrintsCompactly) (hI : L.RejectsIncomplete)
    (hO : L.ReadsOneObject) {server : McpServer W} (hs : Reachable server) (ops : HwioOps)
    (worker : Bool) (w : W) (actions : List DeviceAction) (s : Device W)
    (halong : Runs.Along (deviceStep L server ops) Undisturbed (.start worker w) actions)
    (hrun : Runs.run (deviceStep L server ops) (.start worker w) actions = some s) :
    let out := answersTo L server w (receivedChunks actions)
    (s.wire.stream <+: (payloads out.1).flatMap CStr.bytes ∧
      (s.Idle → s.wire.stream = (payloads out.1).flatMap CStr.bytes ∧ s.world = out.2)) ∧
    ∀ rs, (∀ r ∈ rs, (requestOf L r).isSome) →
      List.Forall₂ (fun chunk r => r.bytes <+: chunk) (receivedChunks actions) rs →
      let replies := (rs.filterMap (requestOf L)).map fun r => Utterance.reply r.id.toInt
      replies.length = rs.length ∧
      (∃ n, (L.readStream s.wire.stream).frames.map L.print = (payloads out.1).take n ∧
        (L.readStream s.wire.stream).frames.map readUtterance = (replies.take n).map some) ∧
      (s.Idle → (L.readStream s.wire.stream).pending = [] ∧
        (L.readStream s.wire.stream).frames.map L.print = payloads out.1 ∧
        (L.readStream s.wire.stream).frames.map readUtterance = replies.map some) := by
  intro out
  obtain ⟨⟨nodes, h⟩, hchunks⟩ := run_serves halong hrun
  have hsofar := h.stream_prefix
  have hidle := h.idle
  rw [hchunks] at hsofar hidle
  refine ⟨⟨hsofar, hidle⟩, fun rs hrs hbegins => ?_⟩
  intro replies
  have hout : out = serve L server (rs.filterMap (requestOf L)) w := by
    rw [← parseMessages_eq]
    exact answersTo_requests hO server hrs hbegins w
  have hhears : Hears L (payloads out.1) replies := hout ▸ serve_hears hL hs.inStep _ w
  obtain ⟨hpending, hvalues, hframes, hpart⟩ := hhears.readStream hL hP hI
  refine ⟨?_, hpart _ hsofar, fun hdone => ?_⟩
  · rw [List.length_map]
    exact List.filterMap_length_eq_length.mpr hrs
  · rw [(hidle hdone).1]
    exact ⟨hpending, hvalues, hframes⟩

/-- A whole run with two requests. -/
theorem device_answers_nop : ∃ actions s,
    Runs.run (deviceStep CJsonLib.reference pingServer .tcp) (.start true ()) actions = some s ∧
    s.Idle ∧
    (CJsonLib.reference.readStream s.wire.stream).frames.map readUtterance =
      [some (.reply 7), some (.reply 8)] := by
  have hlength : ∀ data ∈ [7, 8].map fun id => (nopText id).bytes, data.length ≠ 0 := by
    rintro data hdata
    obtain ⟨id, -, rfl⟩ := List.mem_map.mp hdata
    exact nopText_length id
  obtain ⟨actions, s, halong, hrun, hready, hchunks⟩ :=
    exists_run_ready .tcp hlength (nopText_fits pingServer [7, 8] ())
  have hread := (device_answers CJsonLib.reference_roundTrips CJsonLib.reference_printsCompactly
    CJsonLib.reference_rejectsIncomplete CJsonLib.reference_readsOneObject pingServer_reachable .tcp
    true () _ s halong hrun).2 [nopText 7, nopText 8]
  rw [hchunks] at hread
  obtain ⟨-, -, hall⟩ := hread (by simp [requestOf_nopText])
    (.cons (List.prefix_refl _) (.cons (List.prefix_refl _) .nil))
  refine ⟨actions, s, hrun, hready.idle, (hall hready.idle).2.2.trans ?_⟩
  simp [requestOf_nopText]

/-- Wherever a run stands, the threads can only take so many steps before the next chunk: one for
each byte and each payload of the chunks so far, five for each chunk and three more. They are idle
when none of them has a step left, everything is sent by then, and they can come to that point. -/
theorem device_drains {server : McpServer W} (ops : HwioOps) (worker : Bool) (w : W)
    (actions : List DeviceAction) (s : Device W)
    (halong : Runs.Along (deviceStep L server ops) Undisturbed (.start worker w) actions)
    (hrun : Runs.run (deviceStep L server ops) (.start worker w) actions = some s)
    (hfits : ∀ payload ∈ payloads (answersTo L server w (receivedChunks actions)).1,
      payload.strlen < 2 ^ 32) :
    let out := payloads (answersTo L server w (receivedChunks actions)).1
    (∀ more t, s.GoesOn L server ops more t →
      more.length ≤
        (out.flatMap CStr.bytes).length + out.length + 5 * (receivedChunks actions).length + 3 ∧
      ((∀ a, a.internal = true → deviceStep L server ops t a = none) →
        t.Idle ∧ t.wire.stream = out.flatMap CStr.bytes)) ∧
    ∃ more t, s.GoesOn L server ops more t ∧ t.Idle ∧ t.wire.stream = out.flatMap CStr.bytes := by
  intro out
  obtain ⟨⟨nodes, h⟩, hchunks⟩ := run_serves halong hrun
  have hworking : s.Working L server w := ⟨⟨nodes, h⟩, hchunks ▸ hfits⟩
  have hsent : ∀ more t, s.GoesOn L server ops more t → t.Idle →
      t.wire.stream = out.flatMap CStr.bytes := by
    intro more t hmore hidle
    obtain ⟨-, halong, hrun⟩ := hmore.append hworking halong hrun
    obtain ⟨⟨nodes', ht⟩, hchunks'⟩ := run_serves halong hrun
    rw [(ht.idle hidle).1, hchunks', receivedChunks_internal hmore.1]
  refine ⟨fun more t hmore => ?_, ?_⟩
  · have hinternal := (Runs.along_iff_forall hmore.2).mpr hmore.1
    have hlength := Runs.length_le_measure deviceStep_working hworking hinternal hmore.2
    have hwork := h.work_le
    rw [hchunks] at hwork
    refine ⟨(Nat.le_add_right _ _).trans (hlength.trans hwork), fun hstuck => ?_⟩
    rcases (hmore.append hworking halong hrun).1.next ops with hidle | ⟨a, u, ha, hu⟩
    · exact ⟨hidle, hsent more t hmore hidle⟩
    · rw [hstuck a ha] at hu
      exact absurd hu.symm (Option.some_ne_none u)
  · obtain ⟨more, t, hmore, hidle⟩ := hworking.drained ops
    exact ⟨more, t, hmore, hidle, hsent more t hmore hidle⟩

/-- The threads finish one request in at most so many steps. -/
theorem device_drains_nop : ∃ s more t,
    Device.GoesOn CJsonLib.reference pingServer .tcp s more t ∧ t.Idle ∧
    t.wire.stream = (nopReply 7).bytes ∧ more.length ≤ (nopReply 7).strlen + 9 := by
  obtain ⟨a, s, hundisturbed, hstep, -⟩ := (start_ready _ pingServer ()).receive .tcp
    (nopText_length 7) (nopText_fits pingServer [7] ())
  have hchunks : receivedChunks [posted a (nopText 7).bytes] = [7].map fun id => (nopText id).bytes := by
    rw [receivedChunks, List.filterMap_cons, chunk_posted a (nopText_length 7)]
    rfl
  have h := device_drains .tcp true () [posted a (nopText 7).bytes] s ⟨hundisturbed, fun _ _ => trivial⟩
    (Runs.run_cons.mpr ⟨s, hstep, rfl⟩) (hchunks ▸ nopText_fits pingServer [7] ())
  rw [hchunks, answersTo_nopText] at h
  obtain ⟨hbound, more, t, hmore, hidle, hstream⟩ := h
  refine ⟨s, more, t, hmore, hidle, hstream.trans (List.append_nil _), (hbound more t hmore).1.trans ?_⟩
  simp [payloads, Event.payload, strlen]

end MlinkDevice
