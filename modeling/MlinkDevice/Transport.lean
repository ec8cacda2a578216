import Mathlib.Data.List.Basic
import Mathlib.Logic.Function.Basic

/-!
# Transports

`transport.c` and its two backends `tcp.c` and `unix.c`. Transports and connection states are
allocated, and an address is not used again, so that an object that was freed stays known.
-/

namespace MlinkDevice

inductive TransportType where
  | unix
  | tcp
  | mqtt
  | http
  | ws
  | uart
  | spi
deriving DecidableEq

/-- `transport_tcp_ops` and `transport_unix_ops`. -/
inductive HwioOps where
  | tcp
  | unix
deriving DecidableEq

abbrev Address := ℕ

/-- `struct tcp_state` and `struct unix_state`: whether the socket is open, the receive thread
runs and a callback is set. -/
structure HwioState where
  sock : Bool
  recvThread : Bool
  running : Bool
  recvCb : Bool

/-- `struct transport`. `priv` is the one member of its `hwio`. -/
structure Transport where
  ops : HwioOps
  priv : Option Address

structure Objects where
  transports : Address → Option Transport := fun _ => none
  states : Address → Option HwioState := fun _ => none
  next : Address := 0
  fault : Bool := false

/-- How the steps below `mlink_server_init` go: the creation of the background scheduler, the
two allocations, and what connects, starts and registers. -/
structure Outcome where
  worker : Bool
  transport : Bool
  state : Bool
  connect : Bool
  thread : Bool
  register : Bool

def Outcome.success : Outcome := ⟨true, true, true, true, true, true⟩

/-! ## The backends -/

def Objects.allocState (m : Objects) : Address × Objects :=
  (m.next, { m with
    states := Function.update m.states m.next (some ⟨false, false, true, false⟩)
    next := m.next + 1 })

def Objects.setState (m : Objects) (a : Address) (state : HwioState) : Objects :=
  { m with states := Function.update m.states a (some state) }

/-- The state of a backend, which is allocated where there is none. -/
def Objects.getState (m : Objects) (priv : Option Address) (memory : Bool) :
    Option (Address × Objects) :=
  match priv with
  | some a => some (a, m)
  | none => if memory then some m.allocState else none

/-- `hwio_tcp_init` and `hwio_unix_init`: the result, `priv` and the objects. -/
def hwioInit (o : Outcome) (priv : Option Address) (m : Objects) :
    Bool × Option Address × Objects :=
  match m.getState priv o.state with
  | none => (false, priv, m)
  | some (a, m) =>
    match m.states a with
    | none => (false, some a, { m with fault := true })
    | some state =>
      if state.sock || o.connect then
        if state.recvThread || o.thread then
          (true, some a, m.setState a { state with sock := true, recvThread := true })
        else (false, some a, m.setState a { state with sock := false, running := false })
      else (false, some a, m)

/-- `hwio_tcp_deinit` and `hwio_unix_deinit`. -/
def hwioDeinit (priv : Option Address) (m : Objects) : Objects :=
  match priv with
  | none => m
  | some a => { m with states := Function.update m.states a none }

/-- `hwio_tcp_callback` and `hwio_unix_callback`. -/
def hwioCallback (o : Outcome) (priv : Option Address) (m : Objects) :
    Bool × Option Address × Objects :=
  match m.getState priv o.state with
  | none => (false, priv, m)
  | some (a, m) =>
    match m.states a with
    | none => (false, some a, { m with fault := true })
    | some state => (true, some a, m.setState a { state with recvCb := true })

def hwioTcpInit : Outcome → Option Address → Objects → Bool × Option Address × Objects := hwioInit

def hwioUnixInit : Outcome → Option Address → Objects → Bool × Option Address × Objects := hwioInit

def hwioTcpDeinit : Option Address → Objects → Objects := hwioDeinit

def hwioUnixDeinit : Option Address → Objects → Objects := hwioDeinit

def hwioTcpCallback : Outcome → Option Address → Objects → Bool × Option Address × Objects :=
  hwioCallback

def hwioUnixCallback : Outcome → Option Address → Objects → Bool × Option Address × Objects :=
  hwioCallback

def HwioOps.init : HwioOps → Outcome → Option Address → Objects → Bool × Option Address × Objects
  | .tcp => hwioTcpInit
  | .unix => hwioUnixInit

def HwioOps.deinit : HwioOps → Option Address → Objects → Objects
  | .tcp => hwioTcpDeinit
  | .unix => hwioUnixDeinit

def HwioOps.callback :
    HwioOps → Outcome → Option Address → Objects → Bool × Option Address × Objects
  | .tcp => hwioTcpCallback
  | .unix => hwioUnixCallback

/-! ## Transports -/

abbrev TransportTable := List (TransportType × HwioOps)

def maxTransportRegistrations : ℕ := 4

def transportRegister (table : TransportTable) (type : TransportType) (ops : HwioOps) :
    Bool × TransportTable :=
  if table.any fun entry => entry.1 = type then
    (true, table.map fun entry => if entry.1 = type then (type, ops) else entry)
  else if maxTransportRegistrations ≤ table.length then (false, table)
  else (true, table ++ [(type, ops)])

/-- A failed init frees the transport and does not look at its `hwio` again. -/
def transportCreate (table : TransportTable) (type : TransportType) (o : Outcome) (m : Objects) :
    Option Address × Objects :=
  if o.transport then
    match table.find? fun entry => entry.1 = type with
    | none => (none, m)
    | some (_, ops) =>
      match ops.init o none m with
      | (false, _, m) => (none, m)
      | (true, priv, m) =>
        (some m.next, { m with
          transports := Function.update m.transports m.next (some ⟨ops, priv⟩)
          next := m.next + 1 })
  else (none, m)

def transportDestroy (transport : Address) (m : Objects) : Objects :=
  match m.transports transport with
  | none => { m with fault := true }
  | some t =>
    let m := t.ops.deinit t.priv m
    { m with transports := Function.update m.transports transport none }

/-- `transport_register_callback`, where `register` is whether the backend takes the callback. -/
def transportRegisterCallback (o : Outcome) (transport : Address) (m : Objects) :
    Bool × Objects :=
  match m.transports transport with
  | none => (false, { m with fault := true })
  | some t =>
    if o.register then
      match t.ops.callback o t.priv m with
      | (result, priv, m) =>
        (result, { m with
          transports := Function.update m.transports transport (some { t with priv }) })
    else (false, m)

/-! ## What the calls leave behind -/

@[simp]
theorem HwioOps.init_eq (ops : HwioOps) : ops.init = hwioInit := by cases ops <;> rfl

@[simp]
theorem HwioOps.deinit_eq (ops : HwioOps) : ops.deinit = hwioDeinit := by cases ops <;> rfl

@[simp]
theorem HwioOps.callback_eq (ops : HwioOps) : ops.callback = hwioCallback := by cases ops <;> rfl

theorem hwioInit_cases (o : Outcome) (m : Objects) :
    (o.state = false ∧ hwioInit o none m = (false, none, m)) ∨
    (o.state = true ∧ ∃ state, hwioInit o none m =
      (o.connect && o.thread, some m.next, { m with
        states := Function.update m.states m.next (some state)
        next := m.next + 1 })) := by
  unfold hwioInit Objects.getState
  cases hstate : o.state with
  | false => exact .inl ⟨rfl, rfl⟩
  | true =>
    right
    refine ⟨rfl, ?_⟩
    simp only [Objects.allocState, Objects.setState, if_true, Function.update_self, Bool.false_or]
    cases o.connect with
    | false => exact ⟨_, rfl⟩
    | true =>
      cases o.thread with
      | false => exact ⟨⟨false, false, false, false⟩, by simp [Function.update_idem]⟩
      | true => exact ⟨⟨true, true, true, false⟩, by simp [Function.update_idem]⟩

end MlinkDevice
