import MlinkDevice.Runs
import MlinkDevice.Server
import MlinkDevice.Transport

/-!
# The one server of a process

`mlink_server_init` and `mlink_server_destroy` of `mlink.c`, over the static server of
`mcp_server.c`. The server is initialised once, and several calls set and clear its parts.
-/

open MlinkDevice.CStr

namespace MlinkDevice

variable {W : Type}

/-- The statics `g_mcp_server` and `transport_table`. `worker` and `sendCallback` say whether
these pointers of the server are set. -/
structure Process (W : Type) where
  initialized : Bool := false
  server : McpServer W := mcpServerInit none
  worker : Bool := false
  transport : Option Address := none
  sendCallback : Bool := false
  table : TransportTable := []
  objects : Objects := {}

/-! ## init and destroy -/

/-- `mcp_server_init` with its static flag. -/
def mcpServerInitOnce (p : Process W) (name : Option CStr) (o : Outcome) : Process W :=
  if p.initialized then p
  else { p with
    initialized := true
    server := mcpServerInit name
    worker := o.worker
    transport := none
    sendCallback := false }

/-- A case of the switch over the types, which ends the init where it gives nothing. -/
def openTransport (p : Process W) (type : TransportType) (ops : HwioOps) (o : Outcome) :
    Option (Option Address × Process W) :=
  match transportRegister p.table type ops with
  | (false, _) => none
  | (true, table) =>
    let created := transportCreate table type o p.objects
    some (created.1, { p with table, objects := created.2 })

def mcpServerSetTransport (p : Process W) (transport : Address) (o : Outcome) : Bool × Process W :=
  let registered := transportRegisterCallback o transport p.objects
  (registered.1, { p with transport := some transport, objects := registered.2 })

/-- The end of an init. A transport that cannot be set is destroyed. -/
def finishInit (p : Process W) (transport : Address) (o : Outcome) : Bool × Process W :=
  let set := mcpServerSetTransport p transport o
  if set.1 then set
  else (false, { set.2 with objects := transportDestroy transport set.2.objects })

/-- Whether the caller gets the server, and the process after it. -/
def mlinkServerInit (p : Process W) (type : TransportType) (name : Option CStr) (o : Outcome) :
    Bool × Process W :=
  let p := mcpServerInitOnce p name o
  let opened := match type with
    | .unix => openTransport p .unix .unix o
    | .tcp => openTransport p .tcp .tcp o
    | .mqtt | .http | .ws | .uart | .spi => some (none, p)
  match opened with
  | none => (false, p)
  | some (none, p) => (true, p)
  | some (some transport, p) => finishInit p transport o

def mlinkServerDestroy (p : Process W) : Process W :=
  { p with
    worker := false
    transport := none
    sendCallback := false
    objects := match p.transport with
      | some transport => transportDestroy transport p.objects
      | none => p.objects }

/-- `server` is false for a call with NULL in place of the server. -/
inductive ProcessCall (W : Type) where
  | init (type : TransportType) (name : Option CStr) (o : Outcome)
  | addTool (server : Bool) (memory : AddToolMemory) (tool : McpTool W)
  | setSendCallback (server callback : Bool)
  | destroy (server : Bool)

/-- Nobody has the server before it is initialised. -/
def processCall (p : Process W) : ProcessCall W → Process W
  | .init type name o => (mlinkServerInit p type name o).2
  | .addTool server memory tool =>
    if server && p.initialized then { p with server := (mcpServerAddTool memory p.server tool).2 }
    else p
  | .setSendCallback server callback =>
    if server && p.initialized then { p with sendCallback := callback } else p
  | .destroy server => if server && p.initialized then mlinkServerDestroy p else p

def processStep (p : Process W) (call : ProcessCall W) : Option (Process W) :=
  some (processCall p call)

/-! ## What is alive -/

/-- The connection states that are allocated are the one of the server's transport, which is
allocated too. Without a transport there is none. -/
def Process.Owns (p : Process W) : Prop :=
  match p.transport with
  | none => ∀ a, p.objects.states a = none
  | some t => ∃ transport a, p.objects.transports t = some transport ∧ transport.priv = some a ∧
    ∀ b, (p.objects.states b).isSome ↔ b = a

/-- An init that gets its memory connects, starts its thread, registers its callback, and
finds the server without a transport. -/
def InitSafe (p : Process W) : ProcessCall W → Prop
  | .init type _ o => type = .unix ∨ type = .tcp → o.transport = true → o.state = true →
    o.connect = true ∧ o.thread = true ∧ o.register = true ∧ p.transport = none
  | _ => True

structure TableSound (table : TransportTable) : Prop where
  nodup : (table.map (·.1)).Nodup
  types : ∀ entry ∈ table, entry.1 = .unix ∨ entry.1 = .tcp

/-- What every call keeps as long as each init is safe. -/
structure Process.Sound (p : Process W) : Prop where
  owns : p.Owns
  fresh : ∀ a, p.objects.next ≤ a → p.objects.states a = none
  table : TableSound p.table
  uninitialized : p.initialized = false → p.transport = none

theorem start_sound : ({} : Process W).Sound where
  owns _ := rfl
  fresh _ _ := rfl
  table := ⟨List.nodup_nil, fun _ h => absurd h List.not_mem_nil⟩
  uninitialized _ := rfl

theorem TableSound.length_le {table : TransportTable} (h : TableSound table) :
    table.length ≤ 2 := by
  have hsub : table.map (·.1) ⊆ [.unix, .tcp] := by
    intro type htype
    obtain ⟨entry, hentry, rfl⟩ := List.mem_map.mp htype
    simpa using h.types entry hentry
  have := (List.subperm_of_subset h.nodup hsub).length_le
  simpa using this

theorem TableSound.replace {table : TransportTable} (h : TableSound table) {type : TransportType}
    (hknown : table.any fun entry => entry.1 = type) (ops : HwioOps) :
    let table' := table.map fun entry => if entry.1 = type then (type, ops) else entry
    TableSound table' ∧ table'.find? (fun entry => entry.1 = type) = some (type, ops) := by
  have hfst : ∀ entry : TransportType × HwioOps,
      (if entry.1 = type then (type, ops) else entry).1 = entry.1 := by
    intro entry
    split
    · rename_i heq
      exact heq.symm
    · rfl
  refine ⟨⟨?_, ?_⟩, ?_⟩
  · rw [List.map_map]
    simpa only [Function.comp_def, hfst] using h.nodup
  · intro entry hentry
    obtain ⟨old, hold, rfl⟩ := List.mem_map.mp hentry
    rw [hfst]
    exact h.types old hold
  · obtain ⟨entry, hentry, heq⟩ := List.any_eq_true.mp hknown
    rw [List.find?_map]
    have hfind : (table.find? fun entry => entry.1 = type).isSome :=
      List.find?_isSome.mpr ⟨entry, hentry, heq⟩
    obtain ⟨found, hfound⟩ := Option.isSome_iff_exists.mp hfind
    have htype : found.1 = type := by simpa using List.find?_some hfound
    simp only [Function.comp_def, hfst, hfound, Option.map_some, if_pos htype]

theorem TableSound.append {table : TransportTable} (h : TableSound table) {type : TransportType}
    (htype : type = .unix ∨ type = .tcp) (hnew : ∀ entry ∈ table, entry.1 ≠ type) (ops : HwioOps) :
    TableSound (table ++ [(type, ops)]) ∧
      (table ++ [(type, ops)]).find? (fun entry => entry.1 = type) = some (type, ops) := by
  refine ⟨⟨?_, ?_⟩, ?_⟩
  · rw [List.map_append, List.nodup_append]
    refine ⟨h.nodup, by simp, fun a ha b hb => ?_⟩
    obtain ⟨entry, hentry, rfl⟩ := List.mem_map.mp ha
    obtain rfl : b = type := by simpa using hb
    exact hnew entry hentry
  · intro entry hentry
    rcases List.mem_append.mp hentry with hentry | hentry
    · exact h.types entry hentry
    · obtain rfl := List.mem_singleton.mp hentry
      exact htype
  · rw [List.find?_append, List.find?_eq_none.mpr fun e he => by simpa using hnew e he]
    simp

theorem transportRegister_sound {table : TransportTable} (h : TableSound table)
    {type : TransportType} (htype : type = .unix ∨ type = .tcp) (ops : HwioOps) :
    ∃ table' ops', transportRegister table type ops = (true, table') ∧ TableSound table' ∧
      table'.find? (fun entry => entry.1 = type) = some (type, ops') := by
  unfold transportRegister
  by_cases hknown : table.any fun entry => entry.1 = type
  · rw [if_pos hknown]
    exact ⟨_, ops, rfl, h.replace hknown ops⟩
  · rw [if_neg hknown, if_neg]
    · have hnew : ∀ entry ∈ table, entry.1 ≠ type := fun entry hentry heq =>
        hknown (List.any_eq_true.mpr ⟨entry, hentry, by simpa using heq⟩)
      exact ⟨_, ops, rfl, h.append htype hnew ops⟩
    · have := h.length_le
      unfold maxTransportRegistrations
      omega

/-! ## One init -/

/-- The connection states and transports after an init: as before, with a state that no
transport has, or with a transport for the server, which is alive or not. -/
inductive InitEffect (p : Process W) (o : Outcome) (ops : HwioOps) (q : Process W) : Prop where
  | same (hmemory : o.transport = false ∨ o.state = false)
    (htransport : q.transport = p.transport) (hobjects : q.objects = p.objects)
  | leaked (state : HwioState) (hmemory : o.transport = true ∧ o.state = true)
    (hfailed : o.connect = false ∨ o.thread = false) (htransport : q.transport = p.transport)
    (hobjects : q.objects = { p.objects with
      states := Function.update p.objects.states p.objects.next (some state)
      next := p.objects.next + 1 })
  | connected (state : HwioState) (hmemory : o.transport = true ∧ o.state = true)
    (hdone : o.connect = true ∧ o.thread = true ∧ o.register = true)
    (htransport : q.transport = some (p.objects.next + 1))
    (hobjects : q.objects = { p.objects with
      states := Function.update p.objects.states p.objects.next (some state)
      transports := Function.update p.objects.transports (p.objects.next + 1)
        (some ⟨ops, some p.objects.next⟩)
      next := p.objects.next + 2 })
  | dangling (hmemory : o.transport = true ∧ o.state = true)
    (hfailed : o.register = false) (htransport : q.transport = some (p.objects.next + 1))
    (hobjects : q.objects = { p.objects with
      states := Function.update p.objects.states p.objects.next none
      transports := Function.update p.objects.transports (p.objects.next + 1) none
      next := p.objects.next + 2 })

theorem initOnce_frame {p : Process W} (h : p.Sound) (name : Option CStr) (o : Outcome) :
    (mcpServerInitOnce p name o).transport = p.transport ∧
    (mcpServerInitOnce p name o).table = p.table ∧
    (mcpServerInitOnce p name o).objects = p.objects ∧
    (mcpServerInitOnce p name o).initialized = true := by
  unfold mcpServerInitOnce
  cases hinit : p.initialized with
  | false => exact ⟨(h.uninitialized hinit).symm, rfl, rfl, rfl⟩
  | true => exact ⟨rfl, rfl, rfl, hinit⟩

theorem transportCreate_cases {table : TransportTable} {type : TransportType} {ops : HwioOps}
    (hfind : table.find? (fun entry => entry.1 = type) = some (type, ops)) (o : Outcome)
    (m : Objects) :
    ((o.transport = false ∨ o.state = false) ∧ transportCreate table type o m = (none, m)) ∨
    ((o.transport = true ∧ o.state = true) ∧ ∃ state,
      ((o.connect = false ∨ o.thread = false) ∧ transportCreate table type o m =
        (none, { m with states := Function.update m.states m.next (some state)
                        next := m.next + 1 })) ∨
      ((o.connect = true ∧ o.thread = true) ∧ transportCreate table type o m =
        (some (m.next + 1), { m with
          states := Function.update m.states m.next (some state)
          transports := Function.update m.transports (m.next + 1) (some ⟨ops, some m.next⟩)
          next := m.next + 2 }))) := by
  unfold transportCreate
  cases htransport : o.transport with
  | false => exact .inl ⟨.inl rfl, rfl⟩
  | true =>
    simp only [if_true, hfind, HwioOps.init_eq]
    rcases hwioInit_cases o m with ⟨hstate, hinit⟩ | ⟨hstate, state, hinit⟩
    · rw [hinit]
      exact .inl ⟨.inr hstate, rfl⟩
    · rw [hinit]
      refine .inr ⟨⟨trivial, hstate⟩, state, ?_⟩
      cases o.connect with
      | false => exact .inl ⟨.inl rfl, rfl⟩
      | true =>
        cases o.thread with
        | false => exact .inl ⟨.inr rfl, rfl⟩
        | true => exact .inr ⟨⟨rfl, rfl⟩, rfl⟩

theorem finishInit_effect {p q : Process W} {o : Outcome} {ops : HwioOps} {state : HwioState}
    (hmemory : o.transport = true ∧ o.state = true) (hdone : o.connect = true ∧ o.thread = true)
    (hq : q.objects = { p.objects with
      states := Function.update p.objects.states p.objects.next (some state)
      transports := Function.update p.objects.transports (p.objects.next + 1)
        (some ⟨ops, some p.objects.next⟩)
      next := p.objects.next + 2 }) :
    InitEffect p o ops (finishInit q (p.objects.next + 1) o).2 := by
  unfold finishInit mcpServerSetTransport transportRegisterCallback
  simp only [hq, Function.update_self, HwioOps.callback_eq]
  cases hregister : o.register with
  | true =>
    simp only [if_true, hwioCallback, Objects.getState, Function.update_self, Objects.setState]
    refine .connected { state with recvCb := true } hmemory ⟨hdone.1, hdone.2, hregister⟩ rfl ?_
    simp only [Function.update_idem]
  | false =>
    simp only [Bool.false_eq_true, if_false, transportDestroy, Function.update_self,
      HwioOps.deinit_eq, hwioDeinit]
    refine .dangling hmemory hregister rfl ?_
    simp only [Function.update_idem]

theorem finishInit_frame (p : Process W) (transport : Address) (o : Outcome) :
    let q := (finishInit p transport o).2
    q.table = p.table ∧ q.initialized = p.initialized ∧ q.server = p.server ∧
      q.worker = p.worker := by
  unfold finishInit
  dsimp only
  split <;> exact ⟨rfl, rfl, rfl, rfl⟩

theorem mlinkServerInit_frame (p : Process W) (type : TransportType) (name : Option CStr)
    (o : Outcome) :
    let q := (mlinkServerInit p type name o).2
    let once := mcpServerInitOnce p name o
    q.initialized = once.initialized ∧ q.server = once.server ∧ q.worker = once.worker := by
  intro q once
  have hopen : ∀ type ops created, openTransport once type ops o = some created →
      created.2.initialized = once.initialized ∧ created.2.server = once.server ∧
        created.2.worker = once.worker := by
    intro type ops created hcreated
    unfold openTransport at hcreated
    split at hcreated
    · exact absurd hcreated.symm (Option.some_ne_none created)
    · obtain rfl := Option.some.inj hcreated
      exact ⟨rfl, rfl, rfl⟩
  have hend : ∀ opened : Option (Option Address × Process W), (∀ created, opened = some created →
      created.2.initialized = once.initialized ∧ created.2.server = once.server ∧
        created.2.worker = once.worker) →
      let r := (match opened with
        | none => (false, once)
        | some (none, p) => (true, p)
        | some (some transport, p) => finishInit p transport o).2
      r.initialized = once.initialized ∧ r.server = once.server ∧ r.worker = once.worker := by
    intro opened hopened
    rcases opened with _ | ⟨_ | transport, p⟩
    · exact ⟨rfl, rfl, rfl⟩
    · exact hopened _ rfl
    · obtain ⟨hinit, hserver, hworker⟩ := hopened _ rfl
      obtain ⟨-, hinit', hserver', hworker'⟩ := finishInit_frame p transport o
      exact ⟨hinit'.trans hinit, hserver'.trans hserver, hworker'.trans hworker⟩
  cases type with
  | unix => exact hend _ (hopen .unix .unix)
  | tcp => exact hend _ (hopen .tcp .tcp)
  | _ => exact ⟨rfl, rfl, rfl⟩

/-- **Step.** What an init does to the objects, and that the table stays sound. -/
theorem mlinkServerInit_effect {p : Process W} (h : p.Sound) (type : TransportType)
    (name : Option CStr) (o : Outcome) :
    let q := (mlinkServerInit p type name o).2
    (¬(type = .unix ∨ type = .tcp) ∧ q.transport = p.transport ∧ q.objects = p.objects ∨
      (type = .unix ∨ type = .tcp) ∧ ∃ ops, InitEffect p o ops q) ∧
      TableSound q.table ∧ q.initialized = true := by
  obtain ⟨htransport, htable, hobjects, hinit⟩ := initOnce_frame h name o
  have hopen : ∀ (ops : HwioOps), (type = .unix ∨ type = .tcp) →
      let q := (match openTransport (mcpServerInitOnce p name o) type ops o with
        | none => (false, mcpServerInitOnce p name o)
        | some (none, p) => (true, p)
        | some (some transport, p) => finishInit p transport o).2
      (∃ ops, InitEffect p o ops q) ∧ TableSound q.table ∧ q.initialized = true := by
    intro ops htype
    obtain ⟨table, ops', hregister, hsound, hfind⟩ := transportRegister_sound h.table htype ops
    unfold openTransport
    rw [htable, hregister, hobjects]
    dsimp only
    rcases transportCreate_cases hfind o p.objects with
      ⟨hmemory, hcreate⟩ | ⟨hmemory, state, ⟨hfailed, hcreate⟩ | ⟨hdone, hcreate⟩⟩
    · rw [hcreate]
      exact ⟨⟨ops', .same hmemory htransport rfl⟩, hsound, hinit⟩
    · rw [hcreate]
      exact ⟨⟨ops', .leaked state hmemory hfailed htransport rfl⟩, hsound, hinit⟩
    · rw [hcreate]
      dsimp only
      obtain ⟨htable', hinit', -, -⟩ := finishInit_frame { mcpServerInitOnce p name o with
        table
        objects := { p.objects with
          states := Function.update p.objects.states p.objects.next (some state)
          transports := Function.update p.objects.transports (p.objects.next + 1)
            (some ⟨ops', some p.objects.next⟩)
          next := p.objects.next + 2 } } (p.objects.next + 1) o
      exact ⟨⟨ops', finishInit_effect hmemory hdone rfl⟩, htable' ▸ hsound, hinit'.trans hinit⟩
  unfold mlinkServerInit
  cases type with
  | unix => exact ⟨.inr ⟨.inl rfl, (hopen .unix (.inl rfl)).1⟩, (hopen .unix (.inl rfl)).2⟩
  | tcp => exact ⟨.inr ⟨.inr rfl, (hopen .tcp (.inr rfl)).1⟩, (hopen .tcp (.inr rfl)).2⟩
  | _ => exact ⟨.inl ⟨by simp, htransport, hobjects⟩, htable ▸ h.table, hinit⟩

/-! ## Any calls -/

section Calls

variable {p q : Process W}

theorem Process.Owns.congr (h : p.Owns) (htransport : q.transport = p.transport)
    (hobjects : q.objects = p.objects) : q.Owns := by
  unfold Process.Owns at h ⊢
  rw [htransport, hobjects]
  exact h

theorem InitEffect.sound {o : Outcome} {ops : HwioOps} (heffect : InitEffect p o ops q)
    (h : p.Sound)
    (hsafe : o.transport = true → o.state = true →
      o.connect = true ∧ o.thread = true ∧ o.register = true ∧ p.transport = none)
    (htable : TableSound q.table) (hinit : q.initialized = true) : q.Sound := by
  have huninitialized : q.initialized = false → q.transport = none := fun hfalse =>
    Bool.noConfusion (hfalse.symm.trans hinit)
  cases heffect with
  | same _ htransport hobjects =>
    exact ⟨h.owns.congr htransport hobjects, hobjects ▸ h.fresh, htable, huninitialized⟩
  | leaked _ hmemory hfailed =>
    obtain ⟨hconnect, hthread, -, -⟩ := hsafe hmemory.1 hmemory.2
    simp [hconnect, hthread] at hfailed
  | connected state hmemory _ htransport hobjects =>
    obtain ⟨-, -, -, hnone⟩ := hsafe hmemory.1 hmemory.2
    have hstates : ∀ a, p.objects.states a = none := by
      have howns := h.owns
      unfold Process.Owns at howns
      rwa [hnone] at howns
    refine ⟨?_, ?_, htable, huninitialized⟩
    · unfold Process.Owns
      rw [htransport, hobjects]
      refine ⟨⟨ops, some p.objects.next⟩, p.objects.next, Function.update_self .., rfl, ?_⟩
      intro b
      by_cases hb : b = p.objects.next
      · simp [hb]
      · simp [hstates b, hb]
    · intro a ha
      rw [hobjects] at ha ⊢
      have hlt : p.objects.next < p.objects.next + 2 := Nat.lt_add_of_pos_right (by decide)
      have hne : a ≠ p.objects.next := (Nat.lt_of_lt_of_le hlt ha).ne'
      dsimp only
      rw [Function.update_of_ne hne]
      exact hstates a
  | dangling hmemory hfailed =>
    obtain ⟨-, -, hregister, -⟩ := hsafe hmemory.1 hmemory.2
    simp [hregister] at hfailed

theorem InitEffect.safe {o : Outcome} {ops : HwioOps} (heffect : InitEffect p o ops q)
    (h : p.Sound) (hq : q.Owns) (hmemory : o.transport = true) (hstate : o.state = true) :
    o.connect = true ∧ o.thread = true ∧ o.register = true ∧ p.transport = none := by
  have hnext : p.objects.states p.objects.next = none := h.fresh _ le_rfl
  have howns := h.owns
  unfold Process.Owns at howns hq
  cases heffect with
  | same hfailed => simp [hmemory, hstate] at hfailed
  | leaked state _ _ htransport hobjects =>
    rw [htransport, hobjects] at hq
    cases ht : p.transport with
    | none =>
      simp only [ht] at hq
      simpa using hq p.objects.next
    | some t =>
      simp only [ht] at hq howns
      obtain ⟨transport, a, hfound, hpriv, hlive⟩ := howns
      obtain ⟨transport', a', hfound', hpriv', hlive'⟩ := hq
      obtain rfl : transport = transport' := by simpa [hfound] using hfound'
      obtain rfl : a = a' := by simpa [hpriv] using hpriv'
      have hsame : p.objects.next = a := (hlive' _).mp (by simp)
      simpa [hnext] using (hlive p.objects.next).mpr hsame
  | connected state _ hdone htransport hobjects =>
    refine ⟨hdone.1, hdone.2.1, hdone.2.2, ?_⟩
    rw [htransport, hobjects] at hq
    obtain ⟨transport', a', hfound', hpriv', hlive'⟩ := hq
    cases ht : p.transport with
    | none => rfl
    | some t =>
      simp only [ht] at howns
      obtain ⟨transport, a, hfound, hpriv, hlive⟩ := howns
      have ha : (p.objects.states a).isSome := (hlive a).mpr rfl
      have hne : a ≠ p.objects.next := by
        rintro rfl
        simp [hnext] at ha
      have hboth := (hlive' a).mp (by simpa [Function.update_of_ne hne] using ha)
      have hnew := (hlive' p.objects.next).mp (by simp)
      exact absurd (hboth.trans hnew.symm) hne
  | dangling _ _ htransport hobjects =>
    rw [htransport, hobjects] at hq
    obtain ⟨transport', a', hfound', -, -⟩ := hq
    simp at hfound'

theorem mlinkServerDestroy_sound (h : p.Sound) : (mlinkServerDestroy p).Sound := by
  have howns := h.owns
  unfold Process.Owns at howns
  unfold mlinkServerDestroy
  cases ht : p.transport with
  | none =>
    simp only [ht] at howns
    exact ⟨howns, h.fresh, h.table, fun _ => rfl⟩
  | some t =>
    simp only [ht] at howns
    obtain ⟨transport, a, hfound, hpriv, hlive⟩ := howns
    have hstates : ∀ b, Function.update p.objects.states a none b = none := by
      intro b
      by_cases hb : b = a
      · rw [hb, Function.update_self]
      · rw [Function.update_of_ne hb]
        simpa [hb] using hlive b
    simp only [transportDestroy, hfound, HwioOps.deinit_eq, hwioDeinit, hpriv]
    exact ⟨hstates, fun b _ => hstates b, h.table, fun _ => rfl⟩

theorem processCall_cases (p : Process W) (call : ProcessCall W) :
    (∃ type name o, call = .init type name o ∧
      processCall p call = (mlinkServerInit p type name o).2) ∨
    processCall p call = p ∨
    (∃ memory tool, processCall p call =
      { p with server := (mcpServerAddTool memory p.server tool).2 }) ∨
    (∃ callback, processCall p call = { p with sendCallback := callback }) ∨
    processCall p call = mlinkServerDestroy p := by
  unfold processCall
  cases call with
  | init type name o => exact .inl ⟨type, name, o, rfl, rfl⟩
  | addTool server memory tool =>
    dsimp only
    split
    · exact .inr (.inr (.inl ⟨memory, tool, rfl⟩))
    · exact .inr (.inl rfl)
  | setSendCallback server callback =>
    dsimp only
    split
    · exact .inr (.inr (.inr (.inl ⟨callback, rfl⟩)))
    · exact .inr (.inl rfl)
  | destroy server =>
    dsimp only
    split
    · exact .inr (.inr (.inr (.inr rfl)))
    · exact .inr (.inl rfl)

/-- **Step.** A call that may be made keeps the states accounted for. -/
theorem processStep_sound (p : Process W) (call : ProcessCall W) (q : Process W) (h : p.Sound)
    (hsafe : InitSafe p call) (hstep : processStep p call = some q) : q.Sound := by
  obtain rfl := Option.some.inj hstep
  rcases processCall_cases p call with ⟨type, name, o, rfl, heq⟩ | heq | ⟨memory, tool, heq⟩ |
    ⟨callback, heq⟩ | heq
  all_goals rw [heq]
  · obtain ⟨⟨-, htransport, hobjects⟩ | ⟨htype, ops, heffect⟩, htable, hinit⟩ :=
      mlinkServerInit_effect h type name o
    · refine ⟨h.owns.congr htransport hobjects, hobjects ▸ h.fresh, htable, fun hfalse => ?_⟩
      exact Bool.noConfusion (hfalse.symm.trans hinit)
    · exact heffect.sound h (hsafe htype) htable hinit
  · exact h
  · exact ⟨h.owns, h.fresh, h.table, h.uninitialized⟩
  · exact ⟨h.owns, h.fresh, h.table, h.uninitialized⟩
  · exact mlinkServerDestroy_sound h

theorem processStep_safe (p : Process W) (call : ProcessCall W) (q : Process W) (h : p.Sound)
    (hstep : processStep p call = some q) (hq : q.Owns) : InitSafe p call := by
  obtain rfl := Option.some.inj hstep
  cases call with
  | init type name o =>
    intro htype hmemory hstate
    rcases (mlinkServerInit_effect h type name o).1 with ⟨hnot, -, -⟩ | ⟨-, ops, heffect⟩
    · exact absurd htype hnot
    · exact heffect.safe h hq hmemory hstate
  | _ => trivial

end Calls

/-- After every call the connection states that are allocated are exactly the one of the
server's transport, exactly when every init is safe: if it gets its memory, nothing fails after
that, and the server has no transport yet. -/
theorem owns_iff_inits_safe (calls : List (ProcessCall W)) :
    Runs.Always processStep Process.Owns {} calls ↔ Runs.Along processStep InitSafe {} calls :=
  Runs.always_iff_along (fun _ h => h.owns) processStep_sound processStep_safe start_sound
    (Runs.run_isSome fun _ _ => rfl)

/-- An init that cannot connect leaves its state behind, a second init replaces a transport whose
connection stays, and an init that cannot register leaves the server a destroyed transport. -/
theorem init_leaves_behind :
    let failed := processCall ({} : Process Unit)
      (.init .tcp none { Outcome.success with connect := false })
    let once := processCall ({} : Process Unit) (.init .tcp none .success)
    let twice := processCall once (.init .tcp none .success)
    let unset := processCall ({} : Process Unit)
      (.init .tcp none { Outcome.success with register := false })
    (failed.transport = none ∧ (failed.objects.states 0).isSome ∧ ¬ failed.Owns) ∧
    (once.transport = some 1 ∧ twice.transport = some 3 ∧ (twice.objects.states 0).isSome ∧
      (twice.objects.states 2).isSome ∧ ¬ twice.Owns) ∧
    (unset.transport = some 1 ∧ unset.objects.transports 1 = none ∧ ¬ unset.Owns) := by
  intro failed once twice unset
  have hfailed : (failed.objects.states 0).isSome := rfl
  refine ⟨⟨rfl, hfailed, fun h => ?_⟩, ⟨rfl, rfl, rfl, rfl, fun h => ?_⟩, rfl, rfl, fun h => ?_⟩
  · rw [h 0] at hfailed
    exact Bool.noConfusion hfailed
  · obtain ⟨transport, a, -, -, hlive⟩ := h
    have hsame : (0 : Address) = 2 := ((hlive 0).mp rfl).trans ((hlive 2).mp rfl).symm
    exact absurd hsame (by decide)
  · obtain ⟨transport, a, hfound, -, -⟩ := h
    exact Option.some_ne_none transport hfound.symm

end MlinkDevice
