import MlinkDevice.BackgroundSched

/-!
# Every chunk is parsed once

The receive callback of `mcp_server.c` copies a chunk and posts the copy to the worker.
Without a worker, or without memory for the post, it parses the copy itself.
-/

open MlinkDevice.LinkedQueue

namespace MlinkDevice

/-- The copy of a chunk, which knows the chunk by its number. -/
structure Message where
  chunk : ℕ
  text : List UInt8
deriving DecidableEq

/-- What `malloc` gives for the task record and for the node. -/
structure CallbackMemory where
  task : Bool
  node : Option Addr

/-- The receive thread and the worker of one server: whether there is a worker, the chunks so
far, the message that the receive thread is parsing and those that it has parsed. -/
structure Delivery where
  worker : Bool
  sched : SchedSystem Message := {}
  chunks : List (List UInt8) := []
  inline : Option Message := none
  parsed : List Message := []

inductive DeliveryAction where
  | receive (data : List UInt8) (memory : CallbackMemory)
  | parse
  | worker (action : SchedAction Message)

/-- The callback, up to where it hands the message to the worker or begins to parse it. Until
then only the receive thread has the message. -/
def transportReceiveCallback (s : Delivery) (data : List UInt8) (memory : CallbackMemory) :
    Option Delivery :=
  if data.length = 0 then some s
  else
    let message : Message := ⟨s.chunks.length, data ++ [0]⟩
    let s := { s with chunks := s.chunks ++ [data] }
    if s.worker then
      if memory.task then
        let post := SchedAction.post (some message) memory.node
        let result := (bgSchedPost s.sched.sched (some message) memory.node).1
        (schedStep s.sched post).map fun sched =>
          if result ≠ 0 then { s with sched, inline := some message } else { s with sched }
      else some { s with inline := some message }
    else some { s with inline := some message }

def deliveryStep (s : Delivery) : DeliveryAction → Option Delivery
  | .receive data memory =>
    if s.inline = none then transportReceiveCallback s data memory else none
  | .parse =>
    s.inline.map fun message => { s with inline := none, parsed := s.parsed ++ [message] }
  | .worker action =>
    if action.byWorker then (schedStep s.sched action).map fun sched => { s with sched } else none

/-- The chunks of a run, in which an empty one does not count. -/
def chunksOf : List DeliveryAction → List (List UInt8)
  | [] => []
  | .receive data _ :: rest => if data.length = 0 then chunksOf rest else data :: chunksOf rest
  | .parse :: rest => chunksOf rest
  | .worker _ :: rest => chunksOf rest

/-- Each chunk with a NUL after it. -/
def copies (chunks : List (List UInt8)) : List Message :=
  chunks.mapIdx fun i data => ⟨i, data ++ [0]⟩

/-! ## The invariant -/

/-- Every copy was posted, is being parsed by the receive thread or was parsed by it. -/
structure Delivery.Accounted (s : Delivery) : Prop where
  sched : s.sched.Consistent
  idle : s.sched.destroyer = .idle
  copies : ∀ m, s.sched.accepted.count m + s.inline.toList.count m + s.parsed.count m =
    (copies s.chunks).count m

theorem copies_concat (chunks : List (List UInt8)) (data : List UInt8) :
    copies (chunks ++ [data]) = copies chunks ++ [⟨chunks.length, data ++ [0]⟩] :=
  List.mapIdx_concat

theorem copies_nodup (chunks : List (List UInt8)) : (copies chunks).Nodup := by
  have hindex : (copies chunks).map (·.chunk) = List.range chunks.length := by
    apply List.ext_getElem <;> simp [copies]
  exact List.Nodup.of_map (·.chunk) (hindex ▸ List.nodup_range)

theorem mem_copies {chunks : List (List UInt8)} {m : Message} :
    m ∈ copies chunks ↔ ∃ i data, chunks[i]? = some data ∧ m = ⟨i, data ++ [0]⟩ := by
  unfold copies
  rw [List.mem_mapIdx]
  constructor
  · rintro ⟨i, hi, rfl⟩
    exact ⟨i, chunks[i], List.getElem?_eq_getElem hi, rfl⟩
  · rintro ⟨i, data, hdata, rfl⟩
    obtain ⟨hi, rfl⟩ := List.getElem?_eq_some_iff.mp hdata
    exact ⟨i, hi, rfl⟩

theorem start_accounted (worker : Bool) : ({ worker } : Delivery).Accounted where
  sched := ⟨[], create_holds⟩
  idle := rfl
  copies _ := rfl

section Steps

variable {s t : Delivery}

theorem receiveCallback_cases {data : List UInt8} {memory : CallbackMemory}
    (hstep : transportReceiveCallback s data memory = some t) :
    let message : Message := ⟨s.chunks.length, data ++ [0]⟩
    (data.length = 0 ∧ t = s) ∨
    (data.length ≠ 0 ∧ (s.worker = false ∨ memory.task = false) ∧
      t = { s with chunks := s.chunks ++ [data], inline := some message }) ∨
    (data.length ≠ 0 ∧ s.worker = true ∧ memory.task = true ∧ ∃ sched,
      schedStep s.sched (.post (some message) memory.node) = some sched ∧
      t = if (bgSchedPost s.sched.sched (some message) memory.node).1 ≠ 0
        then { s with chunks := s.chunks ++ [data], sched, inline := some message }
        else { s with chunks := s.chunks ++ [data], sched }) := by
  unfold transportReceiveCallback at hstep
  by_cases hdata : data.length = 0
  · rw [if_pos hdata] at hstep
    exact .inl ⟨hdata, (Option.some.inj hstep).symm⟩
  · rw [if_neg hdata] at hstep
    dsimp only at hstep
    right
    cases hworker : s.worker with
    | false =>
      rw [hworker, if_neg Bool.false_ne_true] at hstep
      exact .inl ⟨hdata, .inl rfl, (Option.some.inj hstep).symm⟩
    | true =>
      rw [hworker, if_pos rfl] at hstep
      cases htask : memory.task with
      | false =>
        rw [htask, if_neg Bool.false_ne_true] at hstep
        exact .inl ⟨hdata, .inr rfl, (Option.some.inj hstep).symm⟩
      | true =>
        rw [htask, if_pos rfl] at hstep
        obtain ⟨sched, hpost, rfl⟩ := Option.map_eq_some_iff.mp hstep
        exact .inr ⟨hdata, rfl, rfl, sched, hpost, rfl⟩

theorem Delivery.Accounted.receive (h : s.Accounted) (hfree : s.inline = none) {data : List UInt8}
    {memory : CallbackMemory} (hstep : transportReceiveCallback s data memory = some t) :
    t.Accounted := by
  have hcopies := h.copies
  rw [hfree] at hcopies
  have hinline : ∀ sched : SchedSystem Message, sched.Consistent → sched.destroyer = .idle →
      sched.accepted = s.sched.accepted →
      Delivery.Accounted { s with
        sched
        chunks := s.chunks ++ [data]
        inline := some ⟨s.chunks.length, data ++ [0]⟩ } := by
    intro sched hsched hidle haccepted
    refine ⟨hsched, hidle, fun m => ?_⟩
    have := hcopies m
    simp only [copies_concat, List.count_append, haccepted, Option.toList_some,
      Option.toList_none, List.count_nil] at this ⊢
    omega
  rcases receiveCallback_cases hstep with
    ⟨-, rfl⟩ | ⟨-, -, rfl⟩ | ⟨-, -, -, sched, hpost, rfl⟩
  · exact h
  · exact hinline s.sched h.sched h.idle rfl
  · obtain ⟨hidle, -, haccepted⟩ := schedStep_post h.idle hpost
    have horderly : Orderly s.sched (.post (some ⟨s.chunks.length, data ++ [0]⟩) memory.node) :=
      h.idle
    have hsched := schedStep_consistent _ _ _ h.sched (horderly.mayPost h.sched) hpost
    split
    · rename_i hrefused
      rw [if_neg hrefused, List.append_nil] at haccepted
      exact hinline sched hsched hidle haccepted
    · rename_i hposted
      rw [if_pos (not_not.mp hposted)] at haccepted
      refine ⟨hsched, hidle, fun m => ?_⟩
      have := hcopies m
      simp only [copies_concat, List.count_append, haccepted, Option.toList_some,
        Option.toList_none, List.count_nil, hfree] at this ⊢
      omega

/-- **Step.** A chunk that comes in is in one place, and the other steps move it on. -/
theorem deliveryStep_accounted (s : Delivery) (a : DeliveryAction) (t : Delivery)
    (h : s.Accounted) (hstep : deliveryStep s a = some t) : t.Accounted := by
  cases a with
  | receive data memory =>
    obtain ⟨hfree, hstep⟩ := Option.ite_none_right_eq_some.mp hstep
    exact h.receive hfree hstep
  | parse =>
    obtain ⟨message, hmessage, rfl⟩ := Option.map_eq_some_iff.mp hstep
    refine ⟨h.sched, h.idle, fun m => ?_⟩
    have := h.copies m
    simp only [hmessage, List.count_append, Option.toList_some, Option.toList_none,
      List.count_nil] at this ⊢
    omega
  | worker action =>
    obtain ⟨hworker, hstep⟩ := Option.ite_none_right_eq_some.mp hstep
    obtain ⟨sched, hsched, rfl⟩ := Option.map_eq_some_iff.mp hstep
    obtain ⟨hidle, haccepted, -, -⟩ := schedStep_byWorker hworker hsched
    refine ⟨schedStep_consistent _ _ _ h.sched (mayPost_of_byWorker _ hworker) hsched,
      hidle.trans h.idle, fun m => ?_⟩
    rw [haccepted]
    exact h.copies m

theorem deliveryStep_chunks {a : DeliveryAction} (hstep : deliveryStep s a = some t) :
    t.chunks = s.chunks ++ chunksOf [a] := by
  cases a with
  | receive data memory =>
    obtain ⟨-, hstep⟩ := Option.ite_none_right_eq_some.mp hstep
    rw [chunksOf]
    rcases receiveCallback_cases hstep with
      ⟨hdata, rfl⟩ | ⟨hdata, -, rfl⟩ | ⟨hdata, -, -, sched, -, rfl⟩
    · rw [if_pos hdata]
      exact (List.append_nil _).symm
    · rw [if_neg hdata]
      rfl
    · rw [if_neg hdata]
      split <;> rfl
  | parse =>
    obtain ⟨message, -, rfl⟩ := Option.map_eq_some_iff.mp hstep
    exact (List.append_nil _).symm
  | worker action =>
    obtain ⟨-, hstep⟩ := Option.ite_none_right_eq_some.mp hstep
    obtain ⟨sched, -, rfl⟩ := Option.map_eq_some_iff.mp hstep
    exact (List.append_nil _).symm

end Steps

theorem chunksOf_cons (a : DeliveryAction) (rest : List DeliveryAction) :
    chunksOf (a :: rest) = chunksOf [a] ++ chunksOf rest := by
  cases a with
  | receive data memory =>
    simp only [chunksOf]
    split <;> rfl
  | _ => rfl

/-- **Run.** After any steps each chunk is in one place. -/
theorem run_accounted {worker : Bool} {actions : List DeliveryAction} {s : Delivery}
    (hrun : Runs.run deliveryStep { worker } actions = some s) :
    s.Accounted ∧ s.chunks = chunksOf actions := by
  have hchunks : ∀ (actions : List DeliveryAction) (s t : Delivery),
      Runs.run deliveryStep s actions = some t → t.chunks = s.chunks ++ chunksOf actions := by
    intro actions
    induction actions with
    | nil =>
      intro s t hrun
      obtain rfl : s = t := Option.some.inj hrun
      exact (List.append_nil _).symm
    | cons a rest ih =>
      intro s t hrun
      obtain ⟨u, hstep, hrun⟩ := Runs.run_cons.mp hrun
      rw [ih u t hrun, deliveryStep_chunks hstep, List.append_assoc, ← chunksOf_cons]
  refine ⟨?_, hchunks actions _ s hrun⟩
  exact Runs.run_invariant Delivery.Accounted (fun s a t h _ => deliveryStep_accounted s a t h)
    (start_accounted worker) (Runs.along_true _ _) hrun

/-- At any time each chunk is queued, being parsed or parsed, and only once. Its copy has the
chunk's bytes and a NUL after them. When nothing is queued or being parsed, the messages
parsed are the copies of all chunks. -/
theorem each_chunk_once (worker : Bool) (actions : List DeliveryAction) (s : Delivery)
    (hrun : Runs.run deliveryStep { worker } actions = some s) :
    ∃ nodes, Chain s.sched.sched.queue.heap s.sched.sched.queue.head nodes ∧
      let queued := nodes.map (·.2)
      let beingParsed := s.sched.current ++ s.inline.toList
      let parsed := s.sched.ran ++ s.parsed
      (∀ m ∈ queued ++ beingParsed ++ parsed,
        ∃ i data, (chunksOf actions)[i]? = some data ∧ m = ⟨i, data ++ [0]⟩) ∧
      (∀ i data, (chunksOf actions)[i]? = some data →
        queued.count ⟨i, data ++ [0]⟩ + beingParsed.count ⟨i, data ++ [0]⟩ +
          parsed.count ⟨i, data ++ [0]⟩ = 1) ∧
      (queued = [] → beingParsed = [] → parsed.Perm (copies (chunksOf actions))) := by
  obtain ⟨⟨⟨nodes, hnodes⟩, -, hcopies⟩, hchunks⟩ := run_accounted hrun
  rw [hchunks] at hcopies
  -- The scheduler keeps what was posted.
  have hcount : ∀ m, (nodes.map (·.2)).count m + (s.sched.current ++ s.inline.toList).count m +
      (s.sched.ran ++ s.parsed).count m = (copies (chunksOf actions)).count m := by
    intro m
    rw [← hcopies, ← hnodes.order]
    simp only [List.count_append]
    omega
  refine ⟨nodes, hnodes.queue.chain, fun m hm => ?_, fun i data hdata => ?_,
    fun hqueued hbeing => ?_⟩
  · rw [← mem_copies, ← List.count_pos_iff, ← hcount m]
    rw [← List.count_pos_iff] at hm
    simp only [List.count_append] at hm ⊢
    omega
  · rw [hcount]
    exact List.count_eq_one_of_mem (copies_nodup _) (mem_copies.mpr ⟨i, data, hdata, rfl⟩)
  · rw [List.perm_iff_count]
    intro m
    rw [← hcount m, hqueued, hbeing]
    simp

/-- The first chunk finds no memory for its task, the second none for its node, and the third
is posted. -/
def threeChunks : List DeliveryAction :=
  [.receive [65] ⟨false, none⟩, .parse, .receive [66] ⟨true, none⟩, .parse,
    .receive [67] ⟨true, some 0⟩, .worker .take, .worker .call]

theorem each_chunk_once_three :
    ∃ s, Runs.run deliveryStep { worker := true } threeChunks = some s ∧
      (s.sched.ran ++ s.parsed).Perm (copies [[65], [66], [67]]) := by
  have hrun : (Runs.run deliveryStep { worker := true } threeChunks).map
      (fun s => (s.sched.sched.queue.head, s.sched.worker, s.inline)) =
        some (none, .finished, none) := by rfl
  obtain ⟨s, hs, hend⟩ := Option.map_eq_some_iff.mp hrun
  obtain ⟨nodes, hchain, -, -, hdone⟩ := each_chunk_once true threeChunks s hs
  simp only [Prod.mk.injEq] at hend
  refine ⟨s, hs, hdone ?_ ?_⟩
  · have hhead := hchain.head_eq
    rw [hend.1] at hhead
    simpa using hhead.symm
  · unfold SchedSystem.current
    rw [hend.2.1, hend.2.2]
    rfl

end MlinkDevice
