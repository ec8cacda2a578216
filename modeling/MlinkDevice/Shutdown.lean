import MlinkDevice.Delivery

/-!
# Shutdown

`mlink_server_destroy` ends the worker and frees the scheduler while the receive thread may
still be in its callback, and only then stops that thread.
-/

open MlinkDevice.LinkedQueue

namespace MlinkDevice

variable {T : Type}

/-! ## The steps of the three threads -/

/-- Where the receive thread is in its callback. `calling` has read `server->worker` for the
call of `bg_sched_post`, and knows whether it was NULL. -/
inductive Receiver (T : Type) where
  | receiving
  | copied (message : T)
  | checked (message : T)
  | calling (message : T) (worker : Bool)
  | parsing (message : T)
  | stopped

/-- `worker` says that `server->worker` is not NULL, and `parsed` is what the receive thread
has parsed itself. -/
structure Shutdown (T : Type) where
  worker : Bool := true
  sched : SchedSystem T := {}
  receiver : Receiver T := .receiving
  parsed : List T := []

inductive ShutdownAction (T : Type) where
  | receive (message : T)
  | check
  | prepare (memory : Bool)
  | post (node : Option Addr)
  | parse
  | worker (action : SchedAction T)
  | destroy (action : SchedAction T)
  | reset
  | stopReceiver

/-- The steps of `bg_sched_destroy`. -/
def SchedAction.byDestroyer : SchedAction T → Bool
  | .stop | .join | .cleanup _ | .free => true
  | _ => false

def shutdownStep (s : Shutdown T) : ShutdownAction T → Option (Shutdown T)
  | .receive message =>
    match s.receiver with
    | .receiving => some { s with receiver := .copied message }
    | _ => none
  | .check =>
    match s.receiver with
    | .copied message =>
      some { s with receiver := if s.worker then .checked message else .parsing message }
    | _ => none
  | .prepare memory =>
    match s.receiver with
    | .checked message =>
      some { s with receiver := if memory then .calling message s.worker else .parsing message }
    | _ => none
  | .post node =>
    match s.receiver with
    | .calling message false => some { s with receiver := .parsing message }
    | .calling message true =>
      let result := (bgSchedPost s.sched.sched (some message) node).1
      (schedStep s.sched (.post (some message) node)).map fun sched => { s with
        sched
        receiver := if result ≠ 0 then .parsing message else .receiving }
    | _ => none
  | .parse =>
    match s.receiver with
    | .parsing message => some { s with receiver := .receiving, parsed := s.parsed ++ [message] }
    | _ => none
  | .worker action =>
    if action.byWorker then (schedStep s.sched action).map fun sched => { s with sched } else none
  | .destroy action =>
    if action.byDestroyer then (schedStep s.sched action).map fun sched => { s with sched }
    else none
  | .reset =>
    if s.sched.destroyer = .freed ∧ s.worker then some { s with worker := false } else none
  | .stopReceiver =>
    -- The thread is cancelled in `recv`, or while it parses and sends.
    match s.worker, s.receiver with
    | false, .receiving => some { s with receiver := .stopped }
    | false, .parsing _ => some { s with receiver := .stopped }
    | _, _ => none

/-- The scheduler is never used after its end, every accepted chunk has been parsed, is being
parsed or is queued, and none is left when the worker has exited. -/
structure Shutdown.LosesNothing (s : Shutdown T) : Prop where
  fault : s.sched.fault = false
  order : ∃ nodes, Chain s.sched.sched.queue.heap s.sched.sched.queue.head nodes ∧
    s.sched.ran ++ s.sched.current ++ nodes.map (·.2) = s.sched.accepted
  exited : s.sched.worker = .exited → s.sched.ran = s.sched.accepted

def Receiver.posting : Receiver T → Bool
  | .calling _ true => true
  | _ => false

/-- A post that gets its node still finds the worker there. -/
def PostsInTime (s : Shutdown T) : ShutdownAction T → Prop
  | .post (some _) => s.receiver.posting = true → s.sched.worker ≠ .exited
  | _ => True

instance (s : Shutdown T) : DecidablePred (PostsInTime s)
  | .post (some _) => inferInstanceAs (Decidable (_ → _))
  | .post none | .receive _ | .check | .prepare _ | .parse | .worker _ | .destroy _ | .reset
  | .stopReceiver => .isTrue trivial

/-! ## The callback alone -/

/-- The same server, between two steps of the receive thread that others can see. -/
structure Matches (d : Delivery) (s : Shutdown Message) : Prop where
  worker : d.worker = s.worker
  sched : d.sched = s.sched
  parsed : d.parsed = s.parsed
  receiver : s.receiver = match d.inline with
    | none => .receiving
    | some message => .parsing message

/-- The callback as one step is a run of the receive thread alone. -/
theorem callback_run {d d' : Delivery} {s : Shutdown Message} (h : Matches d s)
    (hfree : d.inline = none) {data : List UInt8} (hdata : data.length ≠ 0)
    {memory : CallbackMemory} (hstep : transportReceiveCallback d data memory = some d') :
    ∃ actions s', Runs.run shutdownStep s actions = some s' ∧ Matches d' s' := by
  obtain ⟨worker, sched, receiver, parsed⟩ := s
  obtain ⟨hworker, hsched, hparsed, hreceiver⟩ := h
  rw [hfree] at hreceiver
  dsimp only at hworker hsched hparsed hreceiver
  subst hworker hsched hparsed hreceiver
  let message : Message := ⟨d.chunks.length, data ++ [0]⟩
  rcases receiveCallback_cases hstep with
    ⟨hempty, -⟩ | ⟨-, -, rfl⟩ | ⟨-, hworker, -, sched, hpost, rfl⟩
  · exact absurd hempty hdata
  · cases hworker : d.worker with
    | false =>
      refine ⟨[.receive message, .check], ⟨false, d.sched, .parsing message, d.parsed⟩, ?_,
        rfl, rfl, rfl, rfl⟩
      simp [Runs.run, shutdownStep]
    | true =>
      refine ⟨[.receive message, .check, .prepare false],
        ⟨true, d.sched, .parsing message, d.parsed⟩, ?_, rfl, rfl, rfl, rfl⟩
      simp [Runs.run, shutdownStep]
  · have hrun : Runs.run shutdownStep ⟨d.worker, d.sched, .receiving, d.parsed⟩
        [.receive message, .check, .prepare true, .post memory.node] =
          some ⟨d.worker, sched,
            if (bgSchedPost d.sched.sched (some message) memory.node).1 ≠ 0 then .parsing message
            else .receiving, d.parsed⟩ := by
      simp only [Runs.run, shutdownStep, hworker, if_true, Option.bind_some]
      rw [hpost]
      rfl
    refine ⟨_, _, hrun, ?_⟩
    split
    · exact ⟨rfl, rfl, rfl, rfl⟩
    · exact ⟨rfl, rfl, rfl, by simp only [hfree]⟩

/-! ## What a run keeps -/

section Steps

variable {s t : Shutdown T} {a : ShutdownAction T}

theorem shutdownStep_sched (hstep : shutdownStep s a = some t) :
    t.sched = s.sched ∨ ∃ action, schedStep s.sched action = some t.sched ∧
      (PostsInTime s a → MayPost s.sched action) := by
  cases a
  case post node =>
    simp only [shutdownStep] at hstep
    split at hstep
    · exact .inl (Option.some.inj hstep ▸ rfl)
    · rename_i message hcalling
      obtain ⟨sched, hpost, rfl⟩ := Option.map_eq_some_iff.mp hstep
      refine .inr ⟨_, hpost, fun hintime => ?_⟩
      cases node with
      | none => trivial
      | some node => exact hintime (by rw [hcalling]; rfl)
    · exact absurd hstep.symm (Option.some_ne_none t)
  case worker action =>
    obtain ⟨hworker, hstep⟩ := Option.ite_none_right_eq_some.mp hstep
    obtain ⟨sched, hsched, rfl⟩ := Option.map_eq_some_iff.mp hstep
    exact .inr ⟨action, hsched, fun _ => mayPost_of_byWorker _ hworker⟩
  case destroy action =>
    obtain ⟨hdestroy, hstep⟩ := Option.ite_none_right_eq_some.mp hstep
    obtain ⟨sched, hsched, rfl⟩ := Option.map_eq_some_iff.mp hstep
    refine .inr ⟨action, hsched, fun _ => ?_⟩
    cases action with
    | post => exact Bool.noConfusion hdestroy
    | _ => trivial
  -- The other steps leave the scheduler alone.
  all_goals
    simp only [shutdownStep] at hstep
    split at hstep
  all_goals first
    | exact absurd hstep.symm (Option.some_ne_none t)
    | exact .inl (Option.some.inj hstep ▸ rfl)

/-- **Step.** A post in time keeps the scheduler in order, and so does any other step. -/
theorem shutdownStep_consistent (s : Shutdown T) (a : ShutdownAction T) (t : Shutdown T)
    (h : s.sched.Consistent) (hintime : PostsInTime s a) (hstep : shutdownStep s a = some t) :
    t.sched.Consistent := by
  rcases shutdownStep_sched hstep with hsame | ⟨action, hsched, hpost⟩
  · rw [hsame]
    exact h
  · exact schedStep_consistent _ _ _ h (hpost hintime) hsched

theorem SchedSystem.Consistent.ran_eq {s : SchedSystem T} (h : s.Consistent)
    (hexited : s.worker = .exited) : s.ran = s.accepted := by
  obtain ⟨nodes, h⟩ := h
  obtain ⟨rfl, -⟩ := h.exited hexited
  simpa [SchedSystem.current, hexited] using h.order

theorem SchedSystem.Consistent.losesNothing {s : Shutdown T} (h : s.sched.Consistent) :
    s.LosesNothing where
  fault := h.choose_spec.fault
  order := ⟨h.choose, h.choose_spec.queue.chain, h.choose_spec.order⟩
  exited := h.ran_eq

theorem postsInTime_of_losesNothing (s : Shutdown T) (a : ShutdownAction T) (t : Shutdown T)
    (h : s.sched.Consistent) (hstep : shutdownStep s a = some t) (ht : t.LosesNothing) :
    PostsInTime s a := by
  cases a with
  | post node =>
    cases node with
    | none => trivial
    | some node =>
      intro hposting hexited
      simp only [shutdownStep] at hstep
      split at hstep
      · rename_i message hcalling
        rw [hcalling] at hposting
        exact Bool.noConfusion hposting
      · rename_i message hcalling
        obtain ⟨sched, hpost, rfl⟩ := Option.map_eq_some_iff.mp hstep
        obtain ⟨-, hpost⟩ := Option.ite_none_left_eq_some.mp hpost
        obtain rfl := Option.some.inj hpost
        by_cases hfreed : s.sched.destroyer = .freed
        · have hfault := ht.fault
          simp [schedPost, bgSchedPost, hfreed] at hfault
        · have hran := ht.exited (by simpa [schedPost, bgSchedPost, hfreed] using hexited)
          simp [schedPost, bgSchedPost, hfreed, h.ran_eq hexited] at hran
      · exact absurd hstep.symm (Option.some_ne_none t)
  | _ => trivial

end Steps

/-- Nothing is lost in a run, and no step uses a freed scheduler, exactly when each post that
gets its node finds the worker still there. -/
theorem shutdown_loses_nothing_iff (actions : List (ShutdownAction T))
    (hrun : (Runs.run shutdownStep {} actions).isSome) :
    Runs.Always shutdownStep Shutdown.LosesNothing {} actions ↔
      Runs.Along shutdownStep PostsInTime {} actions :=
  Runs.always_iff_along (fun _ => SchedSystem.Consistent.losesNothing) shutdownStep_consistent
    postsInTime_of_losesNothing ⟨[], create_holds⟩ hrun

/-- The message is posted before the stop, and run after it. -/
def lateRun : List (ShutdownAction ℕ) :=
  [.receive 10, .check, .prepare true, .post (some 0), .destroy .stop, .worker .take, .worker .call,
    .worker .account, .worker .exit, .destroy .join, .destroy (.cleanup []), .destroy .free, .reset,
    .stopReceiver]

theorem shutdown_loses_nothing_lateRun :
    Runs.Always shutdownStep Shutdown.LosesNothing {} lateRun :=
  (shutdown_loses_nothing_iff lateRun rfl).mpr (by decide)

/-- The receive thread has read `server->worker` when the shutdown begins, and posts after the
worker's exit. -/
def droppedPost : List (ShutdownAction ℕ) :=
  [.receive 10, .check, .prepare true, .destroy .stop, .worker .exit, .destroy .join, .post (some 0),
    .destroy (.cleanup [0]), .destroy .free, .reset, .stopReceiver]

def postAfterFree : List (ShutdownAction ℕ) :=
  [.receive 10, .check, .prepare true, .destroy .stop, .worker .exit, .destroy .join,
    .destroy (.cleanup []), .destroy .free, .post (some 0)]

/-- The first message is accepted and never parsed, the second uses a freed scheduler. -/
theorem late_post_lost :
    (Runs.run shutdownStep {} droppedPost).map
      (fun s => (s.sched.accepted, s.sched.ran, s.parsed)) = some ([10], [], []) ∧
    ¬ Runs.Always shutdownStep Shutdown.LosesNothing {} droppedPost ∧
    (Runs.run shutdownStep {} postAfterFree).map (fun s => s.sched.fault) = some true ∧
    ¬ Runs.Always shutdownStep Shutdown.LosesNothing {} postAfterFree := by
  refine ⟨rfl, fun h => ?_, rfl, fun h => ?_⟩
  · have hran := (h _ (List.prefix_refl _) _ rfl).exited rfl
    exact absurd hran (by decide)
  · have hfault := (h _ (List.prefix_refl _) _ rfl).fault
    exact Bool.noConfusion hfault

end MlinkDevice
