import MlinkDevice.Pointers.Getters
import MlinkDevice.Pointers.Registry

/-!
# The memory of a client

A client makes calls of `mlink.h` in any order, and its server serves calls of its tools. Whatever
allocations fail on the way, nothing is used after it was freed, and what is allocated is just
what the handles of the client and the registered tools own.
-/

open MlinkDevice.CStr MlinkDevice.Sep MlinkDevice.Sep.Assertion

namespace MlinkDevice.Pointers

/-! ## Runs -/

/-- A call of the API. A handle is named by its place among those that the client has, and any
other number stands for NULL. -/
inductive Action where
  | createList
  | addProperty (list : ℕ) (call : AddCall)
  | getBool (list : ℕ) (name : CStr)
  | getInt (list : ℕ) (name : CStr)
  | getString (list : ℕ) (name : CStr)
  | destroyList (list : ℕ)
  | createTool (name description : Option CStr) (list : ℕ) (callback : Option ℕ) (userOnly : Bool)
  | destroyTool (tool : ℕ)
  | addTool (tool : ℕ)
  | call (id : Int32) (name : CStr) (arguments : Option CJson)

/-- What a call gives back. Of a new handle this is whether it is there. -/
inductive Outcome where
  | done
  | ok (ok : Bool)
  | bool (value : Option Bool)
  | int (value : Option Int32)
  | string (value : Option CStr)
  | sent (payload : Option CStr)

/-- The handles of the client, and its server. A tool that is registered is the server's. -/
structure Client where
  lists : List Addr := []
  tools : List Addr := []
  server : Server := {}

/-- A getter on a handle, which may be NULL. -/
def getProperty {α : Type} (list : Option Addr) (get : PropertyList → Prog Block (Option α)) :
    Prog Block (Option α) :=
  match list with
  | none => return none
  | some a => do get (← readList (some a))

def perform (L : CJsonLib) (callbacks : Callbacks) (client : Client) :
    Action → Prog Block (Outcome × Client)
  | .createList => do
    let list ← mcpPropertyListCreate
    return (.ok list.isSome, { client with lists := client.lists ++ list.toList })
  | .addProperty list call => do
    return (.ok (← mlinkPropertyListAdd client.lists[list]? call), client)
  | .getBool list name => do
    return (.bool (← getProperty client.lists[list]? (mcpPropertyListGetBool · name)), client)
  | .getInt list name => do
    return (.int (← getProperty client.lists[list]? (mcpPropertyListGetInt · name)), client)
  | .getString list name => do
    let value ← getProperty client.lists[list]? fun list => do
      readString (← mcpPropertyListGetString list name)
    return (.string value, client)
  | .destroyList list => do
    mcpPropertyListDestroy client.lists[list]?
    return (.done, { client with lists := client.lists.eraseIdx list })
  | .createTool name description list callback userOnly => do
    let tool ← mlinkToolCreate name description client.lists[list]? callback userOnly
    return (.ok tool.isSome, { client with tools := client.tools ++ tool.toList })
  | .destroyTool tool => do
    mlinkToolDestroy client.tools[tool]?
    return (.done, { client with tools := client.tools.eraseIdx tool })
  | .addTool tool => do
    let (ok, server) ← mcpServerAddTool client.server client.tools[tool]?
    let tools := if ok then client.tools.eraseIdx tool else client.tools
    return (.ok ok, { client with tools, server })
  | .call id name arguments => do
    return (.sent (← mcpServerDoToolCall L callbacks client.server id name arguments), client)

def performAll (L : CJsonLib) (callbacks : Callbacks) (client : Client) :
    List Action → Prog Block (List Outcome × Client)
  | [] => return ([], client)
  | action :: actions => do
    let (outcome, client) ← perform L callbacks client action
    let (outcomes, client) ← performAll L callbacks client actions
    return (outcome :: outcomes, client)

/-! ## The same on values -/

/-- What the client has, whatever the pointers inside of it. -/
structure State where
  lists : List (Addr × Copying.PropertyList)
  tools : List Registration
  registered : Registered
  capacity : ℕ

/-- The properties of a list, and none for NULL. -/
def State.listValue (s : State) (list : ℕ) : Copying.PropertyList :=
  (s.lists[list]?.map Prod.snd).getD {}

/-- What a call may do, where each allocation on the way may fail. -/
inductive Step (L : CJsonLib) (returns : Returns) (s : State) : Action → Outcome → State → Prop where
  | listCreated (a : Addr) : Step L returns s .createList (.ok true)
      { s with lists := s.lists ++ [(a, {})] }
  | noList : Step L returns s .createList (.ok false) s
  | added {list : ℕ} {a : Addr} {l : Copying.PropertyList} (h : s.lists[list]? = some (a, l))
      (call : AddCall) (memory : Copying.AddMemory) : Step L returns s (.addProperty list call)
      (.ok (Copying.ListCall.apply ⟨true, memory, call⟩ l).1)
      { s with lists := s.lists.set list (a, (Copying.ListCall.apply ⟨true, memory, call⟩ l).2) }
  | notAdded {list : ℕ} (h : s.lists[list]? = none) (call : AddCall) :
      Step L returns s (.addProperty list call) (.ok false) s
  | gotBool (list : ℕ) (name : CStr) : Step L returns s (.getBool list name)
      (.bool (MlinkDevice.mcpPropertyListGetBool (s.listValue list).items name)) s
  | gotInt (list : ℕ) (name : CStr) : Step L returns s (.getInt list name)
      (.int (MlinkDevice.mcpPropertyListGetInt (s.listValue list).items name)) s
  | gotString (list : ℕ) (name : CStr) : Step L returns s (.getString list name)
      (.string (MlinkDevice.mcpPropertyListGetString (s.listValue list).items name)) s
  | listDestroyed (list : ℕ) : Step L returns s (.destroyList list) .done
      { s with lists := s.lists.eraseIdx list }
  | toolCreated (a : Addr) (name description : CStr) (list : ℕ) (callback : Option ℕ)
      (userOnly : Bool) (memory : ℕ → Copying.CopyMemory) :
      Step L returns s (.createTool (some name) (some description) list callback userOnly) (.ok true)
      { s with tools := s.tools ++ [(a, ⟨name, description,
          Copying.cloneLoop memory {} (s.listValue list).items, callback, userOnly⟩)] }
  | noTool (name description : Option CStr) (list : ℕ) (callback : Option ℕ) (userOnly : Bool) :
      Step L returns s (.createTool name description list callback userOnly) (.ok false) s
  | toolDestroyed (tool : ℕ) : Step L returns s (.destroyTool tool) .done
      { s with tools := s.tools.eraseIdx tool }
  | registered {tool : ℕ} {t : Registration} (h : s.tools[tool]? = some t) (memory : AddToolMemory)
      (ok : Bool) (capacity : ℕ)
      (hadd : ∀ {W : Type} (behaviour : Behaviour W) (serverName : CStr),
        MlinkDevice.mcpServerAddTool memory (s.registered.server behaviour serverName s.capacity)
          (t.2.mcp behaviour) =
            (ok, (s.registered.after ok memory.bucket t).server behaviour serverName capacity)) :
      Step L returns s (.addTool tool) (.ok ok)
        { lists := s.lists
          tools := if ok then s.tools.eraseIdx tool else s.tools
          registered := s.registered.after ok memory.bucket t
          capacity }
  | notRegistered {tool : ℕ} (h : s.tools[tool]? = none) :
      Step L returns s (.addTool tool) (.ok false) s
  | called (id : Int32) (name : CStr) (arguments : Option CJson) (sent : Option CStr)
      (h : Answered L returns s.registered id name arguments sent) :
      Step L returns s (.call id name arguments) (.sent sent) s

inductive Steps (L : CJsonLib) (returns : Returns) : State → List Action → List Outcome → State →
    Prop where
  | nil (s : State) : Steps L returns s [] [] s
  | cons {s s' s'' : State} {action : Action} {actions : List Action} {outcome : Outcome}
      {outcomes : List Outcome} (h : Step L returns s action outcome s')
      (hs : Steps L returns s' actions outcomes s'') :
      Steps L returns s (action :: actions) (outcome :: outcomes) s''

/-! ## What a client owns -/

def listsAt (lists : List (Addr × Copying.PropertyList)) : Assertion Block :=
  (lists.map fun h => listHandle h.1 h.2).prod

/-- The client has these handles. -/
structure Has (client : Client) (s : State) : Prop where
  lists : client.lists = s.lists.map Prod.fst
  tools : client.tools = s.tools.map Prod.fst
  capacity : client.server.capacity = s.capacity

def clientAt (client : Client) (s : State) : Assertion Block :=
  fact (Has client s) * (listsAt s.lists * (toolsAt s.tools * serverAt client.server s.registered))

/-- A call has done something that it may do. -/
def stepAt (L : CJsonLib) (returns : Returns) (s : State) (action : Action)
    (r : Outcome × Client) : Assertion Block :=
  ⨆ s', fact (Step L returns s action r.1 s') * clientAt r.2 s'

variable {L : CJsonLib} {callbacks : Callbacks} {returns : Returns} {client : Client} {s : State}

theorem stepAt_of {action : Action} {outcome : Outcome} {client' : Client} {s' : State}
    (hstep : Step L returns s action outcome s') (hhas : Has client' s') :
    listsAt s'.lists * (toolsAt s'.tools * serverAt client'.server s'.registered) ≤
      stepAt L returns s action (outcome, client') := by
  refine le_iSup_of_le s' ?_
  rw [fact_of hstep, one_mul, clientAt, fact_of hhas, one_mul]

theorem listsAt_focus {lists : List (Addr × Copying.PropertyList)} {list : ℕ} {a : Addr}
    {l : Copying.PropertyList} (h : lists[list]? = some (a, l)) :
    listsAt lists = listHandle a l * listsAt (lists.eraseIdx list) ∧
      ∀ l', listsAt (lists.set list (a, l')) = listHandle a l' * listsAt (lists.eraseIdx list) :=
  ⟨(prod_focus _ h).1, fun l' => (prod_focus _ h).2 (a, l')⟩

theorem addresses_set {lists : List (Addr × Copying.PropertyList)} {list : ℕ} {a : Addr}
    {l : Copying.PropertyList} (h : lists[list]? = some (a, l)) (l' : Copying.PropertyList) :
    (lists.set list (a, l')).map Prod.fst = lists.map Prod.fst := by
  obtain ⟨hlt, hget⟩ := List.getElem?_eq_some_iff.mp h
  have hlt' : list < (lists.map Prod.fst).length := by rwa [List.length_map]
  have hself := List.set_getElem_self hlt'
  rw [List.getElem_map, hget] at hself
  rw [List.map_set]
  exact hself

theorem listsAt_append (lists : List (Addr × Copying.PropertyList)) (a : Addr)
    (l : Copying.PropertyList) : listsAt (lists ++ [(a, l)]) = listsAt lists * listHandle a l := by
  simp [listsAt]

theorem toolsAt_append (tools : List Registration) (t : Registration) :
    toolsAt (tools ++ [t]) = toolsAt tools * toolHandle t.1 t.2 := by
  simp [toolsAt]

theorem Has.list (h : Has client s) (list : ℕ) :
    client.lists[list]? = s.lists[list]?.map Prod.fst := by
  rw [h.lists, List.getElem?_map]

theorem Has.tool (h : Has client s) (tool : ℕ) :
    client.tools[tool]? = s.tools[tool]?.map Prod.fst := by
  rw [h.tools, List.getElem?_map]

/-! ## One call -/

theorem createList_triple : Triple (clientAt client s) (perform L callbacks client .createList)
    (stepAt L returns s .createList) := by
  refine Triple.fact_pre fun hhas => ?_
  refine Triple.call mcpPropertyListCreate_triple _ (one_mul _).symm fun r => ?_
  cases r with
  | none =>
    refine Triple.ret _ ?_
    rw [one_mul, Option.toList_none, List.append_nil]
    exact stepAt_of .noList hhas
  | some a =>
    refine Triple.ret _ ((le_of_eq ?_).trans (stepAt_of (.listCreated a) ⟨?_, hhas.tools,
      hhas.capacity⟩))
    · dsimp only
      rw [listsAt_append]
      ac_rfl
    · simp [hhas.lists]

theorem addProperty_triple (list : ℕ) (call : AddCall) :
    Triple (clientAt client s) (perform L callbacks client (.addProperty list call))
      (stepAt L returns s (.addProperty list call)) := by
  refine Triple.fact_pre fun hhas => ?_
  dsimp only [perform]
  rw [hhas.list]
  cases hlist : s.lists[list]? with
  | none =>
    exact Triple.ret _ (stepAt_of (.notAdded hlist call) hhas)
  | some handle =>
    obtain ⟨a, l⟩ := handle
    obtain ⟨hfocus, hset⟩ := listsAt_focus hlist
    refine Triple.call (mlinkPropertyListAdd_triple a l call) (listsAt (s.lists.eraseIdx list) *
      (toolsAt s.tools * serverAt client.server s.registered)) (by rw [hfocus]; ac_rfl) fun ok => ?_
    rw [Quantale.iSup_mul_distrib]
    refine Triple.exists_pre fun memory => ?_
    rw [mul_assoc]
    refine Triple.fact_pre fun hok => ?_
    subst hok
    refine Triple.ret _ ((le_of_eq ?_).trans (stepAt_of (.added hlist call memory) ⟨?_, hhas.tools,
      hhas.capacity⟩))
    · dsimp only
      rw [hset]
      ac_rfl
    · rw [hhas.lists]
      exact (addresses_set hlist _).symm

theorem stepAt_same {action : Action} {outcome : Outcome} (h : Step L returns s action outcome s) :
    clientAt client s ≤ stepAt L returns s action (outcome, client) := by
  refine le_iSup_of_le s ?_
  rw [fact_of h, one_mul]

theorem getProperty_triple {α : Type} {get : PropertyList → Prog Block (Option α)}
    (value : List McpProperty → Option α) (hnil : value [] = none) (hget : ∀ list l, Triple (listAt list l) (get list) fun r =>
      fact (r = value l.items) * listAt list l) (list : ℕ) :
    Triple (clientAt client s) (getProperty client.lists[list]? get) fun r =>
      fact (r = value (s.listValue list).items) * clientAt client s := by
  unfold State.listValue clientAt
  refine Triple.fact_pre fun hhas => ?_
  rw [hhas.list, fact_of hhas, one_mul]
  cases hlist : s.lists[list]? with
  | none =>
    refine Triple.ret none ?_
    rw [Option.map_none, Option.getD_none, fact_of hnil.symm, one_mul]
  | some handle =>
    obtain ⟨a, l⟩ := handle
    obtain ⟨hfocus, -⟩ := listsAt_focus hlist
    have hread : Triple (listHandle a l) (getProperty (some a) get) fun r =>
        fact (r = value l.items) * listHandle a l := by
      refine Triple.exists_pre fun found => ?_
      refine Triple.call (readList_triple a found) _ rfl fun r => ?_
      rw [mul_assoc]
      refine Triple.fact_pre fun hr => ?_
      subst hr
      refine Triple.last (hget r l) _ (mul_comm _ _) fun got => ?_
      rw [mul_assoc]
      refine mul_le_mul_right ?_ _
      unfold listHandle
      exact le_iSup_of_le r (le_of_eq (mul_comm _ _))
    refine Triple.last hread (listsAt (s.lists.eraseIdx list) * (toolsAt s.tools *
      serverAt client.server s.registered)) (by rw [hfocus]; ac_rfl) fun r => le_of_eq ?_
    rw [hfocus]
    dsimp only [Option.map_some, Option.getD_some]
    ac_rfl

theorem destroyList_triple (list : ℕ) :
    Triple (clientAt client s) (perform L callbacks client (.destroyList list))
      (stepAt L returns s (.destroyList list)) := by
  refine Triple.fact_pre fun hhas => ?_
  have hhas' : Has { client with lists := client.lists.eraseIdx list }
      { s with lists := s.lists.eraseIdx list } :=
    ⟨by rw [hhas.lists, List.eraseIdx_map], hhas.tools, hhas.capacity⟩
  dsimp only [perform]
  rw [hhas.list]
  cases hlist : s.lists[list]? with
  | none =>
    refine Triple.ret _ ((le_of_eq ?_).trans (stepAt_of (.listDestroyed list) hhas'))
    dsimp only
    rw [List.eraseIdx_of_length_le (List.getElem?_eq_none_iff.mp hlist)]
  | some handle =>
    obtain ⟨a, l⟩ := handle
    obtain ⟨hfocus, -⟩ := listsAt_focus hlist
    refine Triple.call (mcpPropertyListDestroy_triple a l) (listsAt (s.lists.eraseIdx list) *
      (toolsAt s.tools * serverAt client.server s.registered)) (by rw [hfocus]; ac_rfl) fun _ => ?_
    rw [one_mul]
    exact Triple.ret _ (stepAt_of (.listDestroyed list) hhas')

theorem source_focus (hhas : Has client s) (list : ℕ) :
    ∃ K, listsAt s.lists = sourceAt client.lists[list]? (s.listValue list) * K := by
  rw [hhas.list, State.listValue]
  cases hlist : s.lists[list]? with
  | none => exact ⟨listsAt s.lists, by simp [sourceAt]⟩
  | some handle => exact ⟨_, (listsAt_focus hlist).1⟩

theorem createTool_triple (name description : Option CStr) (list : ℕ) (callback : Option ℕ)
    (userOnly : Bool) :
    Triple (clientAt client s)
      (perform L callbacks client (.createTool name description list callback userOnly))
      (stepAt L returns s (.createTool name description list callback userOnly)) := by
  refine Triple.fact_pre fun hhas => ?_
  obtain ⟨K, hsource⟩ := source_focus hhas list
  refine Triple.call (mlinkToolCreate_triple name description client.lists[list]?
    (s.listValue list) callback userOnly) (K * (toolsAt s.tools * serverAt client.server
      s.registered)) (by rw [hsource]; ac_rfl) fun r => ?_
  cases r with
  | none =>
    refine Triple.ret _ ((le_of_eq ?_).trans
      (stepAt_of (.noTool name description list callback userOnly) ⟨hhas.lists, ?_, hhas.capacity⟩))
    · rw [hsource, mul_one]
      ac_rfl
    · rw [Option.toList_none, List.append_nil]
      exact hhas.tools
  | some a =>
    simp only [Quantale.mul_iSup_distrib, Quantale.iSup_mul_distrib]
    refine Triple.exists_pre fun name' => Triple.exists_pre fun description' =>
      Triple.exists_pre fun memory => ?_
    rw [mul_left_comm (sourceAt _ _), mul_assoc]
    refine Triple.fact_pre fun hnames => ?_
    obtain ⟨rfl, rfl⟩ := hnames
    refine Triple.ret _ ((le_of_eq ?_).trans (stepAt_of
      (.toolCreated a name' description' list callback userOnly memory)
      ⟨hhas.lists, ?_, hhas.capacity⟩))
    · dsimp only
      rw [toolsAt_append, hsource]
      ac_rfl
    · simp [hhas.tools]

theorem destroyTool_triple (tool : ℕ) :
    Triple (clientAt client s) (perform L callbacks client (.destroyTool tool))
      (stepAt L returns s (.destroyTool tool)) := by
  refine Triple.fact_pre fun hhas => ?_
  have hhas' : Has { client with tools := client.tools.eraseIdx tool }
      { s with tools := s.tools.eraseIdx tool } :=
    ⟨hhas.lists, by rw [hhas.tools, List.eraseIdx_map], hhas.capacity⟩
  dsimp only [perform]
  rw [hhas.tool]
  cases htool : s.tools[tool]? with
  | none =>
    refine Triple.ret _ ((le_of_eq ?_).trans (stepAt_of (.toolDestroyed tool) hhas'))
    dsimp only
    rw [List.eraseIdx_of_length_le (List.getElem?_eq_none_iff.mp htool)]
  | some t =>
    have hfocus : toolsAt s.tools = toolHandle t.1 t.2 * toolsAt (s.tools.eraseIdx tool) :=
      (prod_focus _ htool).1
    refine Triple.call (mlinkToolDestroy_triple t.1 t.2) (listsAt s.lists *
      (toolsAt (s.tools.eraseIdx tool) * serverAt client.server s.registered))
      (by rw [hfocus]; ac_rfl) fun _ => ?_
    rw [one_mul]
    exact Triple.ret _ (stepAt_of (.toolDestroyed tool) hhas')

theorem addTool_triple (tool : ℕ) :
    Triple (clientAt client s) (perform L callbacks client (.addTool tool))
      (stepAt L returns s (.addTool tool)) := by
  refine Triple.fact_pre fun hhas => ?_
  dsimp only [perform]
  rw [hhas.tool]
  cases htool : s.tools[tool]? with
  | none => exact Triple.ret _ (stepAt_of (.notRegistered htool) hhas)
  | some t =>
    have hfocus : toolsAt s.tools = toolHandle t.1 t.2 * toolsAt (s.tools.eraseIdx tool) :=
      (prod_focus _ htool).1
    refine Triple.call (mcpServerAddTool_triple client.server s.registered t) (listsAt s.lists *
      toolsAt (s.tools.eraseIdx tool)) (by rw [hfocus]; ac_rfl) fun added => ?_
    rw [Quantale.iSup_mul_distrib]
    refine Triple.exists_pre fun memory => ?_
    rw [mul_assoc]
    refine Triple.fact_pre fun hadd => ?_
    obtain ⟨ok, server⟩ := added
    refine Triple.ret _ ((le_of_eq ?_).trans (stepAt_of
      (.registered htool memory ok server.capacity ?_) ⟨hhas.lists, ?_, rfl⟩))
    · cases ok with
      | false =>
        dsimp only
        rw [if_neg Bool.false_ne_true, if_neg Bool.false_ne_true, hfocus]
        ac_rfl
      | true =>
        dsimp only
        rw [if_pos rfl, if_pos rfl, mul_one]
        ac_rfl
    · intro W behaviour serverName
      rw [← hhas.capacity]
      exact hadd behaviour serverName
    · cases ok with
      | false => exact hhas.tools
      | true =>
        change client.tools.eraseIdx tool = (s.tools.eraseIdx tool).map Prod.fst
        rw [hhas.tools, List.eraseIdx_map]

theorem call_triple (h : KeepsContract callbacks returns) (id : Int32) (name : CStr)
    (arguments : Option CJson) :
    Triple (clientAt client s) (perform L callbacks client (.call id name arguments))
      (stepAt L returns s (.call id name arguments)) := by
  refine Triple.fact_pre fun hhas => ?_
  refine Triple.call (mcpServerDoToolCall_triple L h client.server s.registered id name arguments)
    (listsAt s.lists * toolsAt s.tools) (by ac_rfl) fun sent => ?_
  rw [mul_assoc]
  refine Triple.fact_pre fun hsent => ?_
  refine Triple.ret _ ((le_of_eq ?_).trans (stepAt_of (.called id name arguments sent hsent) hhas))
  ac_rfl

/-- **Step.** A call does something that it may do, and leaves just what is owned. -/
theorem perform_triple (h : KeepsContract callbacks returns) (action : Action) :
    Triple (clientAt client s) (perform L callbacks client action) (stepAt L returns s action) := by
  cases action with
  | createList => exact createList_triple
  | addProperty list call => exact addProperty_triple list call
  | getBool list name =>
    refine Triple.bind (getProperty_triple (MlinkDevice.mcpPropertyListGetBool · name) rfl
      (mcpPropertyListGetBool_triple · · name) list)
      fun value => Triple.fact_pre fun hvalue => ?_
    subst hvalue
    exact Triple.ret _ (stepAt_same (.gotBool list name))
  | getInt list name =>
    refine Triple.bind (getProperty_triple (MlinkDevice.mcpPropertyListGetInt · name) rfl
      (mcpPropertyListGetInt_triple · · name) list)
      fun value => Triple.fact_pre fun hvalue => ?_
    subst hvalue
    exact Triple.ret _ (stepAt_same (.gotInt list name))
  | getString list name =>
    refine Triple.bind (getProperty_triple (MlinkDevice.mcpPropertyListGetString · name) rfl
      (mcpPropertyListGetString_triple · · name) list)
      fun value => Triple.fact_pre fun hvalue => ?_
    subst hvalue
    exact Triple.ret _ (stepAt_same (.gotString list name))
  | destroyList list => exact destroyList_triple list
  | createTool name description list callback userOnly =>
    exact createTool_triple name description list callback userOnly
  | destroyTool tool => exact destroyTool_triple tool
  | addTool tool => exact addTool_triple tool
  | call id name arguments => exact call_triple h id name arguments

/-- **Run.** So does any sequence of calls. -/
theorem performAll_triple (h : KeepsContract callbacks returns) (actions : List Action) :
    Triple (clientAt client s) (performAll L callbacks client actions) fun r =>
      ⨆ s', fact (Steps L returns s actions r.1 s') * clientAt r.2 s' := by
  induction actions generalizing client s with
  | nil =>
    refine Triple.ret _ (le_iSup_of_le s ?_)
    rw [fact_of (.nil s), one_mul]
  | cons action actions ih =>
    refine Triple.bind (perform_triple h action) fun r => ?_
    refine Triple.exists_pre fun s' => Triple.fact_pre fun hstep => ?_
    refine Triple.bind ih fun rest => ?_
    refine Triple.exists_pre fun s'' => Triple.fact_pre fun hsteps => ?_
    refine Triple.ret _ (le_iSup_of_le s'' ?_)
    rw [fact_of (.cons hstep hsteps), one_mul]

/-! ## From the start -/

def State.initial : State where
  lists := []
  tools := []
  registered := ⟨[], fun _ => [], fun _ _ h => absurd h List.not_mem_nil⟩
  capacity := 0

theorem clientAt_initial : clientAt {} State.initial = 1 := by
  have hbuckets : bucketsAt {} State.initial.registered = 1 := Finset.prod_const_one
  rw [clientAt, fact_of ⟨rfl, rfl, rfl⟩, one_mul, serverAt,
    fact_of ⟨rfl, le_rfl, fun _ => rfl, fun _ => rfl⟩, one_mul, hbuckets]
  simp [State.initial, listsAt, toolsAt, toolsBlock, optionally]

theorem start_triple (h : KeepsContract callbacks returns) (actions : List Action) :
    Triple 1 (performAll L callbacks {} actions) fun r =>
      ⨆ s, fact (Steps L returns State.initial actions r.1 s) * clientAt r.2 s :=
  (performAll_triple h actions).pre (le_of_eq clientAt_initial.symm)

/-- Whatever a client does and whichever allocations fail, there is no fault, the calls do what
they may do on values, and the memory is just what the handles and the server own. -/
theorem performAll_owns (L : CJsonLib) (callbacks : Callbacks) (returns : Returns)
    (h : KeepsContract callbacks returns) (actions : List Action) (grants : Addr → Bool) :
    ∃ outcomes client m s,
      performAll L callbacks {} actions (Memory.initial grants) = some ((outcomes, client), m) ∧
        Steps L returns State.initial actions outcomes s ∧ clientAt client s m.blocks := by
  obtain ⟨r, m, hrun, hend⟩ := start_triple h actions (Memory.initial grants) 1
    (by rw [mul_one]; exact one_apply.mpr rfl)
  rw [mul_one] at hend
  obtain ⟨s, hs⟩ := iSup_holds.mp hend
  obtain ⟨hsteps, howns⟩ := fact_mul_apply.mp hs
  exact ⟨r.1, r.2, m, s, hrun, hsteps, howns⟩

/-- The function of the client in the protocol test. -/
def multiplyCb (props : PropertyList) : Prog Block ReturnValue := do
  match ← mcpPropertyListGetInt props (lit "value") with
  | none => mcpReturnString (some (lit "missing value parameter"))
  | some value => return .int (value * 2)

def MultiplyReturns (ps : List McpProperty) (v : McpReturnValue) : Prop :=
  match MlinkDevice.mcpPropertyListGetInt ps (lit "value") with
  | none => ∃ s, v = .string s
  | some value => v = .int (value * 2)

theorem multiplyCb_keeps : KeepsContract (fun _ => multiplyCb) fun _ => MultiplyReturns := by
  intro callback list l
  refine Triple.bind (mcpPropertyListGetInt_triple list l (lit "value")) fun r => ?_
  refine Triple.fact_pre fun hr => ?_
  subst hr
  cases hvalue : MlinkDevice.mcpPropertyListGetInt l.items (lit "value") with
  | none =>
    refine Triple.last (mcpReturnString_triple _) (listAt list l) (one_mul _).symm fun v => ?_
    rw [mul_comm]
    refine mul_le_mul_right (iSup_le fun s => le_iSup_of_le (McpReturnValue.string s) ?_) _
    rw [fact_of (by simp [MultiplyReturns, hvalue]), one_mul]
  | some value =>
    refine Triple.ret (ReturnValue.int (value * 2)) ?_
    refine le_trans (le_of_eq (mul_one _).symm) (mul_le_mul_right ?_ _)
    refine le_iSup_of_le (McpReturnValue.int (value * 2)) ?_
    rw [fact_of (by simp [MultiplyReturns, hvalue]), one_mul, returnAt, fact_of rfl]

/-- The calls of the protocol test. -/
def multiplyActions : List Action := [
  .createList,
  .addProperty 0 (.int (some (lit "value")) false 0 false 0 false 0),
  .createTool (some (lit "protocol.multiply")) (some (lit "Multiply an integer by 2")) 0 (some 0)
    false,
  .addTool 0,
  .destroyList 0,
  .call 3 (lit "protocol.multiply") (some (.object [(lit "value", .number 21)]))]

theorem performAll_owns_multiply : ∃ outcomes client m s,
    performAll CJsonLib.reference (fun _ => multiplyCb) {} multiplyActions
        (Memory.initial fun _ => true) = some ((outcomes, client), m) ∧
      Steps CJsonLib.reference (fun _ => MultiplyReturns) State.initial multiplyActions outcomes s ∧
        clientAt client s m.blocks :=
  performAll_owns _ _ _ multiplyCb_keeps _ _

/-! ## What is left -/

theorem listHandle_owns (a : Addr) (l : Copying.PropertyList) : listHandle a l ≤ owns a :=
  iSup_le fun _ => owns_of_pointsTo a _ _

theorem toolHandle_owns (a : Addr) (t : ToolValue) : toolHandle a t ≤ owns a := by
  refine iSup_le fun tool => iSup_le fun wrapper => ?_
  exact (mul_le_mul_left (fact_le _) _).trans ((le_of_eq (one_mul _)).trans (owns_of_pointsTo a _ _))

theorem clientAt_separate {h : Blocks Block} (hh : clientAt client s h) :
    (client.lists ++ client.tools).Nodup ∧ ∀ a ∈ client.lists ++ client.tools, h a ≠ none := by
  obtain ⟨hhas, hh⟩ := fact_mul_apply.mp hh
  let address : (Addr × Copying.PropertyList) ⊕ Registration → Addr :=
    Sum.elim Prod.fst Prod.fst
  let owned : (Addr × Copying.PropertyList) ⊕ Registration → Assertion Block :=
    Sum.elim (fun h => listHandle h.1 h.2) fun t => toolHandle t.1 t.2
  have hprod : ((s.lists.map Sum.inl ++ s.tools.map Sum.inr).map owned).prod =
      listsAt s.lists * toolsAt s.tools := by
    simp [owned, listsAt, toolsAt, Function.comp_def]
  have haddresses : (s.lists.map Sum.inl ++ s.tools.map Sum.inr).map address =
      client.lists ++ client.tools := by
    simp [address, hhas.lists, hhas.tools, Function.comp_def]
  rw [← mul_assoc, ← hprod] at hh
  have hseparate := prod_separate address owned (fun x _ => ?_) hh
  · rw [haddresses] at hseparate
    refine ⟨hseparate.1, fun a ha => ?_⟩
    rw [← haddresses] at ha
    obtain ⟨x, hx, rfl⟩ := List.mem_map.mp ha
    exact hseparate.2 x hx
  · cases x with
    | inl h => exact listHandle_owns h.1 h.2
    | inr t => exact toolHandle_owns t.1 t.2

theorem optionally_none (p : Option Addr) : optionally p (none : Option Block) ≤ 1 := by
  cases p with
  | none => exact le_rfl
  | some a => exact bot_le

theorem serverAt_empty {server : Server} {g : Registered} (hcount : server.count = 0) :
    serverAt server g ≤ 1 := by
  intro h hh
  obtain ⟨hcounts, hh⟩ := fact_mul_apply.mp hh
  have htools : g.tools = [] := List.length_eq_zero_iff.mp (hcounts.count.symm.trans hcount)
  have hbuckets : bucketsAt server g ≤ 1 := by
    refine Finset.prod_induction _ (· ≤ 1) (fun _ _ hP hQ => mul_le_one' hP hQ) le_rfl
      fun hash _ => ?_
    have hempty : g.toolHash hash = [] :=
      List.eq_nil_iff_forall_not_mem.mpr fun t ht =>
        absurd (g.held hash t ht) (htools ▸ List.not_mem_nil)
    rw [hempty]
    exact optionally_none _
  refine (mul_le_one' ?_ (mul_le_one' hbuckets ?_)) h hh
  · rw [toolsBlock, if_pos (hcounts.first htools)]
    exact optionally_none _
  · rw [htools]
    exact le_rfl

/-- In every run the handles that a client has are blocks of their own, and no block is left once
it has none and nothing is registered. -/
theorem performAll_separate (L : CJsonLib) (callbacks : Callbacks) (returns : Returns)
    (h : KeepsContract callbacks returns) (actions : List Action) (grants : Addr → Bool)
    (outcomes : List Outcome) (client : Client) (m : Memory Block)
    (hrun : performAll L callbacks {} actions (Memory.initial grants) =
      some ((outcomes, client), m)) :
    (client.lists ++ client.tools).Nodup ∧
      (∀ a ∈ client.lists ++ client.tools, m.blocks a ≠ none) ∧
        (client.lists = [] → client.tools = [] → client.server.count = 0 →
          ∀ a, m.blocks a = none) := by
  obtain ⟨r, m', hrun', hend⟩ := start_triple h actions (Memory.initial grants) 1
    (by rw [mul_one]; exact one_apply.mpr rfl)
  obtain ⟨rfl, rfl⟩ : r = (outcomes, client) ∧ m' = m := by
    simpa using hrun'.symm.trans hrun
  rw [mul_one] at hend
  obtain ⟨s, hs⟩ := iSup_holds.mp hend
  obtain ⟨-, howns⟩ := fact_mul_apply.mp hs
  obtain ⟨hnodup, hallocated⟩ := clientAt_separate howns
  refine ⟨hnodup, hallocated, fun hlists htools hcount a => ?_⟩
  obtain ⟨hhas, howns⟩ := fact_mul_apply.mp howns
  have hnothing : listsAt s.lists * (toolsAt s.tools * serverAt client.server s.registered) ≤ 1 := by
    rw [List.map_eq_nil_iff.mp (hhas.lists.symm.trans hlists),
      List.map_eq_nil_iff.mp (hhas.tools.symm.trans htools)]
    exact mul_le_one' le_rfl (mul_le_one' le_rfl (serverAt_empty hcount))
  rw [one_apply.mp (hnothing m'.blocks howns)]
  rfl

/-- A client that destroys its list and its tool. -/
def balancedActions : List Action := [
  .createList,
  .createTool (some (lit "contract.tool")) (some (lit "bool tool")) 0 (some 0) false,
  .destroyList 0,
  .destroyTool 0]

theorem performAll_separate_balanced : ∃ m,
    performAll CJsonLib.reference (fun _ => multiplyCb) {} balancedActions
        (Memory.initial fun _ => true) = some (([.ok true, .ok true, .done, .done], {}), m) ∧
      ∀ a, m.blocks a = none :=
  ⟨_, rfl, (performAll_separate CJsonLib.reference _ _ multiplyCb_keeps balancedActions
    (fun _ => true) [.ok true, .ok true, .done, .done] {} _ rfl).2.2 rfl rfl rfl⟩

end MlinkDevice.Pointers
