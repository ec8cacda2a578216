import MlinkDevice.Runs
import MlinkDevice.Transport

/-!
# Is the connection served

The operations of `transport_tcp_ops` and `transport_unix_ops` on one `hwio`, and the receive
thread that they start, which closes the socket when the peer does.
-/

namespace MlinkDevice.Serving

/-! ## The functions -/

/-- Where the thread of `tcp_recv_thread` and `unix_recv_thread` is. -/
inductive RecvThread where
  | checking
  | receiving
  | left
deriving DecidableEq

/-- `struct tcp_state` and `struct unix_state`: whether the socket is open, the thread that
`recv_thread` refers to, `running`, and whether a callback is set. -/
structure State where
  sock : Bool
  recvThread : Option RecvThread
  running : Bool
  recvCb : Bool
deriving DecidableEq

/-- How the steps of an init go. -/
structure InitOutcome where
  memory : Bool
  connect : Bool
  thread : Bool

/-- The state of a backend, which is allocated where there is none. -/
def getState (priv : Option State) (memory : Bool) : Option State :=
  match priv with
  | some state => some state
  | none => if memory then some ⟨false, none, true, false⟩ else none

/-- `tcp_close` and `unix_close`. -/
def State.close (state : State) : State := { state with sock := false }

/-- `hwio_tcp_init` and `hwio_unix_init`: the result and `priv`. -/
def hwioInit (o : InitOutcome) (priv : Option State) : Int32 × Option State :=
  match getState priv o.memory with
  | none => (-1, priv)
  | some state =>
    if state.sock || o.connect then
      let state := { state with sock := true }
      match state.recvThread with
      | some _ => (0, some state)
      | none =>
        if o.thread then (0, some { state with recvThread := some .checking })
        else (-1, some { state.close with running := false })
    else (-1, some state)

/-- `hwio_tcp_callback` and `hwio_unix_callback`, with a callback or `NULL`. -/
def hwioCallback (memory callback : Bool) (priv : Option State) : Int32 × Option State :=
  match getState priv memory with
  | none => (-1, priv)
  | some state => (0, some { state with recvCb := callback })

/-- What `hwio_tcp_write` and `hwio_unix_write` do to the state when a `send` fails or not. -/
def hwioWrite (fails : Bool) (priv : Option State) : Option State :=
  priv.map fun state => if fails && state.sock then state.close else state

/-- `hwio_tcp_deinit` and `hwio_unix_deinit`, which cancel the thread and wait for it. -/
def hwioDeinit (_ : Option State) : Option State := none

def hwioTcpInit : InitOutcome → Option State → Int32 × Option State := hwioInit

def hwioTcpCallback : Bool → Bool → Option State → Int32 × Option State := hwioCallback

def hwioTcpWrite : Bool → Option State → Option State := hwioWrite

def hwioTcpDeinit : Option State → Option State := hwioDeinit

def hwioUnixInit : InitOutcome → Option State → Int32 × Option State := hwioInit

def hwioUnixCallback : Bool → Bool → Option State → Int32 × Option State := hwioCallback

def hwioUnixWrite : Bool → Option State → Option State := hwioWrite

def hwioUnixDeinit : Option State → Option State := hwioDeinit

/-- `struct hwio_ops`. -/
structure Operations where
  init : InitOutcome → Option State → Int32 × Option State
  callback : Bool → Bool → Option State → Int32 × Option State
  write : Bool → Option State → Option State
  deinit : Option State → Option State

def transportTcpOps : Operations where
  init := hwioTcpInit
  callback := hwioTcpCallback
  write := hwioTcpWrite
  deinit := hwioTcpDeinit

def transportUnixOps : Operations where
  init := hwioUnixInit
  callback := hwioUnixCallback
  write := hwioUnixWrite
  deinit := hwioUnixDeinit

def operations : HwioOps → Operations
  | .tcp => transportTcpOps
  | .unix => transportUnixOps

theorem operations_init (ops : HwioOps) : (operations ops).init = hwioInit := by
  cases ops <;> rfl

/-! ## The steps -/

/-- The thread tests its loop condition, `recv` returns data or is interrupted, or it returns
that the peer has closed or an error. -/
inductive ThreadStep where
  | check
  | data
  | closed
deriving DecidableEq

/-- Where the loop condition and the tests after it lead. -/
def State.check (state : State) : RecvThread :=
  if state.running = false then .left
  else if state.sock = false ∨ state.recvCb = false then .checking
  else .receiving

def recvThreadStep (priv : Option State) (step : ThreadStep) : Option (Option State) :=
  priv.bind fun state => match state.recvThread, step with
    | some .checking, .check => some (some { state with recvThread := some state.check })
    | some .receiving, .data => some (some { state with recvThread := some .checking })
    | some .receiving, .closed => some (some { state.close with recvThread := some .left })
    | _, _ => none

/-- The object, with the results of all inits and its state when they returned. -/
structure Hwio where
  priv : Option State := none
  returns : List (Int32 × Option State) := []

/-- An init goes with what the receive thread does before it returns. -/
inductive HwioAction where
  | init (o : InitOutcome) (during : List ThreadStep)
  | callback (memory callback : Bool)
  | write (fails : Bool)
  | deinit
  | thread (step : ThreadStep)

def hwioStep (ops : HwioOps) (s : Hwio) : HwioAction → Option Hwio
  | .init o during =>
    let called := (operations ops).init o s.priv
    (Runs.run recvThreadStep called.2 during).map fun priv =>
      { priv, returns := s.returns ++ [(called.1, priv)] }
  | .callback memory callback =>
    some { s with priv := ((operations ops).callback memory callback s.priv).2 }
  | .write fails => some { s with priv := (operations ops).write fails s.priv }
  | .deinit => some { s with priv := (operations ops).deinit s.priv }
  | .thread step => (recvThreadStep s.priv step).map fun priv => { s with priv }

/-! ## Served connections -/

/-- The socket is open, `running` is 1 and the receive thread has not left its loop. -/
def State.Served (state : State) : Prop :=
  state.sock = true ∧ state.running = true ∧
    (state.recvThread = some .checking ∨ state.recvThread = some .receiving)

instance (state : State) : Decidable state.Served :=
  inferInstanceAs (Decidable (_ ∧ _ ∧ (_ ∨ _)))

/-- Every init that returned 0 has left a connection that is served. -/
def Hwio.Good (s : Hwio) : Prop :=
  ∀ r ∈ s.returns, r.1 = 0 → ∃ state, r.2 = some state ∧ state.Served

/-- A step of an init that is needed fails. -/
def InitFails (o : InitOutcome) (priv : Option State) : Prop :=
  (priv = none ∧ o.memory = false) ∨
    (priv.all (·.sock = false) ∧ o.connect = false) ∨
    (priv.all (·.recvThread = none) ∧ o.thread = false)

/-- The state runs and its thread, if there is one, is in its loop. -/
def State.Ready (state : State) : Prop :=
  state.running = true ∧ state.recvThread ≠ some .left

/-- An init fails, or it comes to a new state or one that is ready, and its thread does not see
the connection close before it returns. -/
def MayInit (s : Hwio) : HwioAction → Prop
  | .init o during =>
    InitFails o s.priv ∨ ((∀ state ∈ s.priv, state.Ready) ∧ .closed ∉ during)
  | _ => True

instance (o : InitOutcome) (priv : Option State) : Decidable (InitFails o priv) :=
  inferInstanceAs (Decidable (_ ∨ _ ∨ _))

instance : DecidablePred State.Ready := fun _ => inferInstanceAs (Decidable (_ ∧ _))

instance (s : Hwio) : DecidablePred (MayInit s)
  | .init _ _ => inferInstanceAs (Decidable (_ ∨ _))
  | .callback _ _ | .write _ | .deinit | .thread _ => .isTrue trivial

/-! ## What the functions do -/

section Functions

variable {o : InitOutcome} {priv priv' : Option State} {state : State} {step : ThreadStep}
  {during : List ThreadStep}

theorem State.Served.ready (h : state.Served) : state.Ready := by
  refine ⟨h.2.1, ?_⟩
  rcases h.2.2 with hthread | hthread <;> rw [hthread] <;> decide

theorem hwioInit_cases (o : InitOutcome) (priv : Option State) :
    (InitFails o priv ∧ (hwioInit o priv).1 = -1) ∨
    (¬ InitFails o priv ∧ ∃ state, hwioInit o priv = (0, some state) ∧ state.sock = true ∧
      state.running = priv.all (·.running) ∧
      state.recvThread = some ((priv.bind (·.recvThread)).getD .checking)) := by
  obtain ⟨memory, connect, create⟩ := o
  rcases priv with _ | ⟨sock, thread, running, recvCb⟩
  · cases memory <;> cases connect <;> cases create <;> simp [InitFails, hwioInit, getState]
  · cases sock <;> cases connect <;> cases thread <;> cases create <;>
      simp [InitFails, hwioInit, getState]

theorem ready_of_init {priv : Option State}
    (hrunning : state.running = priv.all (·.running))
    (hthread : state.recvThread = some ((priv.bind (·.recvThread)).getD .checking)) :
    state.Ready ↔ ∀ before ∈ priv, before.Ready := by
  rcases priv with _ | ⟨sock, thread, running, recvCb⟩
  · simp_all [State.Ready]
  · cases thread <;> simp_all [State.Ready]

theorem served_of_ready (hsock : state.sock = true) (hready : state.Ready) {r : RecvThread}
    (hthread : state.recvThread = some r) : state.Served := by
  refine ⟨hsock, hready.1, ?_⟩
  cases r with
  | checking => exact .inl hthread
  | receiving => exact .inr hthread
  | left => exact absurd hthread hready.2

theorem recvThreadStep_cases (h : recvThreadStep (some state) step = some priv') :
    (state.recvThread = some .checking ∧ step = .check ∧
      priv' = some { state with recvThread := some state.check }) ∨
    (state.recvThread = some .receiving ∧ step = .data ∧
      priv' = some { state with recvThread := some .checking }) ∨
    (state.recvThread = some .receiving ∧ step = .closed ∧
      priv' = some { state.close with recvThread := some .left }) := by
  simp only [recvThreadStep, Option.bind_some] at h
  split at h
  case h_1 hthread => exact .inl ⟨hthread, rfl, (Option.some.inj h).symm⟩
  case h_2 hthread => exact .inr (.inl ⟨hthread, rfl, (Option.some.inj h).symm⟩)
  case h_3 hthread => exact .inr (.inr ⟨hthread, rfl, (Option.some.inj h).symm⟩)
  case h_4 => exact absurd h.symm (Option.some_ne_none _)

/-- **Step.** A connection that is served stays so until the peer closes it. -/
theorem recvThreadStep_served (h : state.Served) (hopen : step ≠ .closed)
    (hstep : recvThreadStep (some state) step = some priv') :
    ∃ state', priv' = some state' ∧ state'.Served := by
  obtain ⟨hsock, hrunning, -⟩ := h
  rcases recvThreadStep_cases hstep with ⟨-, -, rfl⟩ | ⟨-, -, rfl⟩ | ⟨-, hclosed, -⟩
  · refine ⟨_, rfl, hsock, hrunning, ?_⟩
    simp only [State.check, hrunning, hsock, Bool.true_eq_false, if_false, false_or]
    split
    · exact .inl rfl
    · exact .inr rfl
  · exact ⟨_, rfl, hsock, hrunning, .inl rfl⟩
  · exact absurd hclosed hopen

/-- **Step.** A state that is not ready does not become so, and one that was closed is not. -/
theorem recvThreadStep_not_ready (h : ¬ state.Ready ∨ step = .closed)
    (hstep : recvThreadStep (some state) step = some priv') :
    ∃ state', priv' = some state' ∧ ¬ state'.Ready := by
  rcases recvThreadStep_cases hstep with ⟨hthread, rfl, rfl⟩ | ⟨hthread, rfl, rfl⟩ | ⟨-, -, rfl⟩
  · refine ⟨_, rfl, fun hready => h.elim (fun hnot => hnot ⟨hready.1, ?_⟩) (by decide)⟩
    rw [hthread]
    decide
  · refine ⟨_, rfl, fun hready => h.elim (fun hnot => hnot ⟨hready.1, ?_⟩) (by decide)⟩
    rw [hthread]
    decide
  · exact ⟨_, rfl, fun hready => hready.2 rfl⟩

/-- **Run.** -/
theorem run_served (h : state.Served) (hopen : .closed ∉ during)
    (hrun : Runs.run recvThreadStep (some state) during = some priv') :
    ∃ state', priv' = some state' ∧ state'.Served := by
  induction during generalizing state with
  | nil => exact ⟨state, (Option.some.inj hrun).symm, h⟩
  | cons step during ih =>
    obtain ⟨hstep, hrest⟩ := not_or.mp (mt List.mem_cons.mpr hopen)
    obtain ⟨u, hu, hrun⟩ := Runs.run_cons.mp hrun
    obtain ⟨next, rfl, hnext⟩ := recvThreadStep_served h (Ne.symm hstep) hu
    exact ih hnext hrest hrun

theorem run_not_ready (h : ¬ state.Ready ∨ .closed ∈ during)
    (hrun : Runs.run recvThreadStep (some state) during = some priv') :
    ∃ state', priv' = some state' ∧ ¬ state'.Ready := by
  induction during generalizing state with
  | nil => exact ⟨state, (Option.some.inj hrun).symm, h.resolve_right List.not_mem_nil⟩
  | cons step during ih =>
    obtain ⟨u, hu, hrun⟩ := Runs.run_cons.mp hrun
    obtain ⟨next, rfl, hnext⟩ : ∃ next, u = some next ∧ (¬ next.Ready ∨ .closed ∈ during) := by
      by_cases hhere : ¬ state.Ready ∨ step = .closed
      · obtain ⟨next, rfl, hnext⟩ := recvThreadStep_not_ready hhere hu
        exact ⟨next, rfl, .inl hnext⟩
      · obtain ⟨hready, hopen⟩ := not_or.mp hhere
        have hlater := (List.mem_cons.mp (h.resolve_left hready)).resolve_left (Ne.symm hopen)
        rcases recvThreadStep_cases hu with ⟨-, -, rfl⟩ | ⟨-, -, rfl⟩ | ⟨-, -, rfl⟩ <;>
          exact ⟨_, rfl, .inr hlater⟩
    exact ih hnext hrun

end Functions

/-! ## Any run -/

theorem create_good : ({} : Hwio).Good := fun _ h => absurd h List.not_mem_nil

/-- **Step.** An allowed init that returns 0 leaves a connection that is served. -/
theorem hwioStep_good (ops : HwioOps) (s : Hwio) (a : HwioAction) (t : Hwio) (h : s.Good)
    (hmay : MayInit s a) (hstep : hwioStep ops s a = some t) : t.Good := by
  cases a with
  | init o during =>
    obtain ⟨priv, hrun, rfl⟩ := Option.map_eq_some_iff.mp hstep
    rw [operations_init] at hrun ⊢
    refine List.forall_mem_append.mpr ⟨h, List.forall_mem_singleton.mpr fun hzero => ?_⟩
    rcases hwioInit_cases o s.priv with ⟨-, hfails⟩ | ⟨hgoes, state, hinit, hsock, hrunning, hthread⟩
    · exact absurd (hfails.symm.trans hzero) (by decide)
    · obtain ⟨hready, hopen⟩ := hmay.resolve_left hgoes
      rw [hinit] at hrun
      exact run_served (served_of_ready hsock ((ready_of_init hrunning hthread).mpr hready) hthread)
        hopen hrun
  | thread step =>
    obtain ⟨priv, -, rfl⟩ := Option.map_eq_some_iff.mp hstep
    exact h
  | _ =>
    obtain rfl := Option.some.inj hstep
    exact h

theorem mayInit_of_good (ops : HwioOps) (s : Hwio) (a : HwioAction) (t : Hwio)
    (hstep : hwioStep ops s a = some t) (h : t.Good) : MayInit s a := by
  cases a with
  | init o during =>
    obtain ⟨priv, hrun, rfl⟩ := Option.map_eq_some_iff.mp hstep
    rw [operations_init] at hrun h
    rcases hwioInit_cases o s.priv with ⟨hfails, -⟩ | ⟨-, state, hinit, hsock, hrunning, hthread⟩
    · exact .inl hfails
    · rw [hinit] at hrun h
      obtain ⟨served, rfl, hserved⟩ := h _ (List.mem_append_right _ List.mem_cons_self) rfl
      refine .inr (by_contra fun hnot => ?_)
      rw [← ready_of_init hrunning hthread] at hnot
      obtain ⟨state', hsame, hlost⟩ := run_not_ready
        ((not_and_or.mp hnot).imp_right not_not.mp) hrun
      obtain rfl := Option.some.inj hsame
      exact hlost hserved.ready
  | _ => trivial

/-- Whatever the calls and the receive thread do, every init that returns 0 leaves a connection
that is served exactly when each comes to a new state or one that is ready, and its thread does
not see the connection close before it returns, or it fails. -/
theorem init_serves_iff (ops : HwioOps) {actions : List HwioAction}
    (h : (Runs.run (hwioStep ops) {} actions).isSome) :
    Runs.Always (hwioStep ops) Hwio.Good {} actions ↔
      Runs.Along (hwioStep ops) MayInit {} actions :=
  Runs.always_iff_along (fun _ => id) (hwioStep_good ops)
    (fun s a t _ => mayInit_of_good ops s a t) create_good h

def goes : InitOutcome := ⟨true, true, true⟩

/-- The peer closes, and the object is deinitialised before the next init. -/
def deinitFirst : List HwioAction :=
  [.callback true true, .init goes [.check, .data], .thread .check, .thread .closed, .deinit,
    .init goes []]

theorem init_serves_iff_deinit : Runs.Always (hwioStep .tcp) Hwio.Good {} deinitFirst :=
  (init_serves_iff .tcp rfl).mpr (by decide)

/-- The peer closes, and the next init finds the thread that has left. -/
def initAgain : List HwioAction :=
  [.callback true true, .init goes [], .thread .check, .thread .closed, .init goes []]

theorem reconnect_not_served : ∃ s, Runs.run (hwioStep .tcp) {} initAgain = some s ∧
    s.returns.getLast? = some (0, some ⟨true, some .left, true, true⟩) ∧
    ¬ Runs.Always (hwioStep .tcp) Hwio.Good {} initAgain := by
  refine ⟨_, rfl, rfl, fun h => ?_⟩
  obtain ⟨state, hstate, hserved⟩ := h initAgain (List.prefix_refl _) _ rfl
    (0, some ⟨true, some .left, true, true⟩) (by decide) rfl
  obtain rfl := Option.some.inj hstate
  exact absurd hserved (by decide)

/-! ## In the memory of the transports -/

/-- The state without what its thread is doing. -/
def State.toHwioState (state : State) : HwioState :=
  ⟨state.sock, state.recvThread.isSome, state.running, state.recvCb⟩

/-- `priv` is the address of that state. -/
def Keeps (m : Objects) (priv : Option Address) (state : Option State) : Prop :=
  (priv = none ∧ state = none) ∨
    ∃ a s, priv = some a ∧ state = some s ∧ m.states a = some s.toHwioState

theorem keeps_setState (m : Objects) (a : Address) (state : State) :
    Keeps (m.setState a state.toHwioState) (some a) (some state) :=
  .inr ⟨a, state, rfl, rfl, Function.update_self ..⟩

/-- An init in memory does what it does to the state. -/
theorem hwioInit_keeps {m : Objects} {priv : Option Address} {state : Option State}
    (h : Keeps m priv state) (o : Outcome) :
    ((MlinkDevice.hwioInit o priv m).1 = true ↔
      (hwioInit ⟨o.state, o.connect, o.thread⟩ state).1 = 0) ∧
    Keeps (MlinkDevice.hwioInit o priv m).2.2 (MlinkDevice.hwioInit o priv m).2.1
      (hwioInit ⟨o.state, o.connect, o.thread⟩ state).2 := by
  have hstate : (m.getState priv o.state = none ∧ getState state o.state = none) ∨
      ∃ a m' s, m.getState priv o.state = some (a, m') ∧ getState state o.state = some s ∧
        m'.states a = some s.toHwioState := by
    rcases h with ⟨rfl, rfl⟩ | ⟨a, s, rfl, rfl, hs⟩
    · cases hmemory : o.state with
      | false => exact .inl ⟨rfl, rfl⟩
      | true => exact .inr ⟨_, _, _, rfl, rfl, Function.update_self ..⟩
    · exact .inr ⟨a, m, s, rfl, rfl, hs⟩
  have hfails : ¬ ((-1 : Int32) = 0) := by decide
  unfold MlinkDevice.hwioInit hwioInit
  rcases hstate with ⟨hnone, hnone'⟩ | ⟨a, m', s, hsome, hsome', hs⟩
  · rw [hnone, hnone']
    exact ⟨iff_of_false Bool.false_ne_true hfails, h⟩
  · rw [hsome, hsome']
    dsimp only
    rw [hs]
    obtain ⟨sock, thread, running, recvCb⟩ := s
    dsimp only [State.toHwioState]
    cases hconnect : sock || o.connect with
    | false => exact ⟨iff_of_false Bool.false_ne_true hfails, .inr ⟨a, _, rfl, rfl, hs⟩⟩
    | true =>
      rcases thread with _ | r
      · cases hthread : o.thread with
        | false =>
          exact ⟨iff_of_false Bool.false_ne_true hfails,
            keeps_setState m' a ⟨false, none, false, recvCb⟩⟩
        | true => exact ⟨iff_of_true rfl rfl, keeps_setState m' a ⟨true, some .checking, running, recvCb⟩⟩
      · exact ⟨iff_of_true rfl rfl, keeps_setState m' a ⟨true, some r, running, recvCb⟩⟩

end MlinkDevice.Serving
