import MlinkDevice.Buckets
import MlinkDevice.Tool

/-!
# The tool registry

`mcp_server.c`: the growing array of tools and the table of 256 buckets that finds a
tool by the first byte of its name.
-/

open MlinkDevice.CStr

namespace MlinkDevice

variable {W : Type}

/-! ## The server -/

/-- The registry fields of `struct mcp_server`. `tools` is the used part of the array, so
`count` is its length. -/
structure McpServer (W : Type) where
  tools : List (McpTool W)
  capacity : ℕ
  serverName : CStr
  toolHash : Fin 256 → List (McpTool W)

def McpServer.count (server : McpServer W) : ℕ := server.tools.length

/-- `mcp_server_init` on a server that is not initialised yet. -/
def mcpServerInit (serverName : Option CStr) : McpServer W where
  tools := []
  capacity := 0
  serverName := match serverName with
    | some name => if name.first ≠ 0 then name.strncpy 127 else lit "MCP_SERVER"
    | none => lit "MCP_SERVER"
  toolHash := fun _ => []

def toolNameHash (name : CStr) : Fin 256 :=
  if name.first = 0 then 0 else ⟨name.first.toNat, name.first.toNat_lt⟩

def mcpServerFindToolByHash (server : McpServer W) (name : CStr) : Option (McpTool W) :=
  (server.toolHash (toolNameHash name)).find? fun tool => tool.name == name

/-! ## Registration -/

/-- Which of the two allocations of a registration succeed. -/
structure AddToolMemory where
  tools : Bool
  bucket : Bool

def AddToolMemory.plenty : AddToolMemory := ⟨true, true⟩

def mcpServerAddToolToHash (memory : Bool) (server : McpServer W) (tool : McpTool W) :
    Bool × McpServer W :=
  if memory then
    let hash := toolNameHash tool.name
    (true, { server with
      toolHash := Function.update server.toolHash hash (server.toolHash hash ++ [tool]) })
  else (false, server)

/-- `while (new_capacity < required) new_capacity *= 2`, which starts above zero. -/
def doubleUntil (required capacity : ℕ) : ℕ :=
  if 0 < capacity ∧ capacity < required then doubleUntil required (capacity * 2) else capacity
termination_by required - capacity

def mcpServerReserveTools (memory : Bool) (server : McpServer W) (required : ℕ) :
    Bool × McpServer W :=
  if required ≤ server.capacity then (true, server)
  else
    let capacity := doubleUntil required (if server.capacity = 0 then 4 else server.capacity * 2)
    if memory then (true, { server with capacity }) else (false, server)

def mcpServerAddTool (memory : AddToolMemory) (server : McpServer W) (tool : McpTool W) :
    Bool × McpServer W :=
  match mcpServerFindToolByHash server tool.name with
  | some _ => (false, server)
  | none =>
    match mcpServerReserveTools memory.tools server (server.count + 1) with
    | (false, server) => (false, server)
    | (true, server) =>
      -- A failed bucket is only logged.
      let server := { server with tools := server.tools ++ [tool] }
      (true, (mcpServerAddToolToHash memory.bucket server tool).2)

def addTools (server : McpServer W) : List (McpTool W) → List Bool × McpServer W
  | [] => ([], server)
  | tool :: rest =>
    let added := mcpServerAddTool .plenty server tool
    let run := addTools added.2 rest
    (added.1 :: run.1, run.2)

def Reachable (server : McpServer W) : Prop :=
  ∃ name calls, server = (addTools (mcpServerInit name) calls).2

/-! ## The invariant -/

/-- The array and the buckets are in step. -/
structure McpServer.InStep (server : McpServer W) : Prop where
  names_nodup : (server.tools.map (·.name)).Nodup
  count_le_capacity : server.count ≤ server.capacity
  indexes : Buckets.Indexes (·.name) toolNameHash server.tools server.toolHash

theorem le_doubleUntil (required capacity : ℕ) (h : 0 < capacity) :
    required ≤ doubleUntil required capacity := by
  induction capacity using doubleUntil.induct required with
  | case1 capacity hlt ih =>
    rw [doubleUntil, if_pos hlt]
    exact ih (by omega)
  | case2 capacity hge =>
    rw [doubleUntil, if_neg hge]
    omega

theorem init_inStep (name : Option CStr) : (mcpServerInit name : McpServer W).InStep where
  names_nodup := List.nodup_nil
  count_le_capacity := le_refl _
  indexes := Buckets.indexes_nil

theorem find_eq {server : McpServer W} (h : server.InStep) (name : CStr) :
    mcpServerFindToolByHash server name = server.tools.find? fun tool => tool.name == name :=
  h.indexes.find name

theorem find_eq_none {server : McpServer W} (h : server.InStep) {name : CStr} :
    mcpServerFindToolByHash server name = none ↔ ∀ tool ∈ server.tools, tool.name ≠ name := by
  simp [find_eq h]

theorem find_eq_some {server : McpServer W} (h : server.InStep) {tool : McpTool W} {name : CStr} :
    mcpServerFindToolByHash server name = some tool ↔ tool ∈ server.tools ∧ tool.name = name := by
  rw [find_eq h]
  constructor
  · intro hfind
    exact ⟨List.mem_of_find?_eq_some hfind, by simpa using List.find?_some hfind⟩
  · rintro ⟨hmem, rfl⟩
    cases hfind : server.tools.find? fun t => t.name == tool.name with
    | none =>
      have := List.find?_eq_none.mp hfind tool hmem
      simp at this
    | some t =>
      have hname : t.name = tool.name := by simpa using List.find?_some hfind
      rw [List.inj_on_of_nodup_map h.names_nodup (List.mem_of_find?_eq_some hfind) hmem hname]

/-- The registration does not get as far as the array, since the name is found or the array
cannot grow. -/
def AddToolMemory.Refuses (memory : AddToolMemory) (server : McpServer W) (tool : McpTool W) :
    Prop :=
  (∃ t, mcpServerFindToolByHash server tool.name = some t) ∨
    (server.capacity ≤ server.count ∧ memory.tools = false)

/-- What a registration does, whichever of its allocations succeed. -/
theorem addTool_outcome (memory : AddToolMemory) (server : McpServer W) (tool : McpTool W) :
    (memory.Refuses server tool ∧ mcpServerAddTool memory server tool = (false, server)) ∨
    (mcpServerFindToolByHash server tool.name = none ∧
      (memory.tools = false → server.count < server.capacity) ∧
      ∃ capacity, (server.count + 1 ≤ capacity) ∧
        mcpServerAddTool memory server tool = (true, { server with
          tools := server.tools ++ [tool]
          capacity
          toolHash := if memory.bucket = true
            then Function.update server.toolHash (toolNameHash tool.name)
              (server.toolHash (toolNameHash tool.name) ++ [tool])
            else server.toolHash })) := by
  unfold mcpServerAddTool mcpServerReserveTools mcpServerAddToolToHash
  cases hfind : mcpServerFindToolByHash server tool.name with
  | some t => exact .inl ⟨.inl ⟨t, hfind⟩, rfl⟩
  | none =>
    by_cases hcap : server.count + 1 ≤ server.capacity
    · refine .inr ⟨rfl, fun _ => by omega, server.capacity, hcap, ?_⟩
      rw [if_pos hcap]
      cases memory.bucket <;> rfl
    · rw [if_neg hcap]
      cases hmem : memory.tools with
      | false => exact .inl ⟨.inr ⟨by omega, hmem⟩, rfl⟩
      | true =>
        refine .inr ⟨rfl, fun h => Bool.noConfusion h, doubleUntil (server.count + 1)
          (if server.capacity = 0 then 4 else server.capacity * 2), ?_, ?_⟩
        · apply le_doubleUntil
          split <;> omega
        · cases memory.bucket <;> rfl

theorem addTool_cases (server : McpServer W) (tool : McpTool W) :
    ((∃ t, mcpServerFindToolByHash server tool.name = some t) ∧
      mcpServerAddTool .plenty server tool = (false, server)) ∨
    (mcpServerFindToolByHash server tool.name = none ∧
      ∃ capacity, (server.count + 1 ≤ capacity) ∧
        mcpServerAddTool .plenty server tool = (true, { server with
          tools := server.tools ++ [tool]
          capacity
          toolHash := Function.update server.toolHash (toolNameHash tool.name)
            (server.toolHash (toolNameHash tool.name) ++ [tool]) })) := by
  rcases addTool_outcome .plenty server tool with ⟨hrefuse, heq⟩ | ⟨hnone, -, capacity, hcap, heq⟩
  · rcases hrefuse with hfind | ⟨-, hmem⟩
    · exact .inl ⟨hfind, heq⟩
    · exact Bool.noConfusion hmem
  · exact .inr ⟨hnone, capacity, hcap, heq⟩

theorem McpServer.InStep.append {server : McpServer W} (h : server.InStep) {tool : McpTool W}
    (hnone : mcpServerFindToolByHash server tool.name = none) {capacity : ℕ}
    (hcap : server.count + 1 ≤ capacity) :
    McpServer.InStep { server with
      tools := server.tools ++ [tool]
      capacity
      toolHash := Function.update server.toolHash (toolNameHash tool.name)
        (server.toolHash (toolNameHash tool.name) ++ [tool]) } := by
  refine ⟨?_, by simpa [McpServer.count] using hcap, h.indexes.append tool⟩
  rw [List.map_append, List.nodup_append]
  refine ⟨h.names_nodup, by simp, ?_⟩
  intro name hname other hother
  simp only [List.mem_map, List.map_cons, List.map_nil, List.mem_singleton] at hname hother
  obtain ⟨t, ht, rfl⟩ := hname
  exact hother ▸ (find_eq_none h).mp hnone t ht

theorem addTool_inStep {server : McpServer W} (h : server.InStep) (tool : McpTool W) :
    (mcpServerAddTool .plenty server tool).2.InStep := by
  rcases addTool_cases server tool with ⟨-, heq⟩ | ⟨hnone, capacity, hcap, heq⟩
  · rw [heq]
    exact h
  · rw [heq]
    exact h.append hnone hcap

/-- **Run.** Registrations keep the array and the buckets in step. -/
theorem addTools_inStep {server : McpServer W} (h : server.InStep) (calls : List (McpTool W)) :
    (addTools server calls).2.InStep := by
  induction calls generalizing server with
  | nil => exact h
  | cons tool rest ih => exact ih (addTool_inStep h tool)

theorem Reachable.inStep {server : McpServer W} (h : Reachable server) : server.InStep := by
  obtain ⟨name, calls, rfl⟩ := h
  exact addTools_inStep (init_inStep name) calls

theorem addTool_result {server : McpServer W} (h : server.InStep) (tool : McpTool W) :
    (mcpServerAddTool .plenty server tool).1 = false ↔ ∃ t ∈ server.tools, t.name = tool.name := by
  rcases addTool_cases server tool with ⟨⟨t, hfind⟩, heq⟩ | ⟨hnone, capacity, -, heq⟩
  · rw [heq]
    have := (find_eq_some h).mp hfind
    exact ⟨fun _ => ⟨t, this⟩, fun _ => rfl⟩
  · rw [heq]
    have := (find_eq_none h).mp hnone
    simpa using this

theorem addTool_refused {server : McpServer W} {tool : McpTool W}
    (h : (mcpServerAddTool .plenty server tool).1 = false) :
    (mcpServerAddTool .plenty server tool).2 = server := by
  rcases addTool_cases server tool with ⟨-, heq⟩ | ⟨-, capacity, -, heq⟩
  · rw [heq]
  · rw [heq] at h
    simp at h

theorem addTools_tools (server : McpServer W) (calls : List (McpTool W)) :
    (addTools server calls).2.tools =
      server.tools ++ ((calls.zip (addTools server calls).1).filter (·.2)).map (·.1) := by
  induction calls generalizing server with
  | nil => simp [addTools]
  | cons tool rest ih =>
    simp only [addTools, ih]
    rcases addTool_cases server tool with ⟨-, heq⟩ | ⟨-, capacity, -, heq⟩ <;> simp [heq]

theorem addTools_serverName (server : McpServer W) (calls : List (McpTool W)) :
    (addTools server calls).2.serverName = server.serverName := by
  induction calls generalizing server with
  | nil => rfl
  | cons tool rest ih =>
    rw [addTools, ih]
    rcases addTool_cases server tool with ⟨-, heq⟩ | ⟨-, capacity, -, heq⟩ <;> rw [heq]

theorem addTools_append (server : McpServer W) (calls more : List (McpTool W)) :
    (addTools server (calls ++ more)).2 = (addTools (addTools server calls).2 more).2 := by
  induction calls generalizing server with
  | nil => rfl
  | cons tool rest ih => exact ih _

theorem prefix_addTools (server : McpServer W) (calls : List (McpTool W)) :
    server.tools <+: (addTools server calls).2.tools := by
  rw [addTools_tools]
  exact List.prefix_append _ _

theorem addTools_mem {server : McpServer W} {calls : List (McpTool W)} {tool : McpTool W}
    (h : tool ∈ (addTools server calls).2.tools) : tool ∈ server.tools ++ calls := by
  rw [addTools_tools, List.mem_append] at h
  rw [List.mem_append]
  refine h.imp_right fun h => ?_
  obtain ⟨⟨t, b⟩, hmem, rfl⟩ := List.mem_map.mp h
  exact (List.of_mem_zip (List.mem_of_mem_filter hmem)).1

theorem addTools_length (server : McpServer W) (calls : List (McpTool W)) :
    (addTools server calls).2.tools.length ≤ server.tools.length + calls.length := by
  rw [addTools_tools, List.length_append, List.length_map]
  have hfilter := List.length_filter_le (·.2) (calls.zip (addTools server calls).1)
  rw [List.length_zip] at hfilter
  omega

theorem addTools_of_nodup {server : McpServer W} (h : server.InStep) {calls : List (McpTool W)}
    (hnames : ((server.tools ++ calls).map (·.name)).Nodup) :
    (addTools server calls).2.tools = server.tools ++ calls := by
  induction calls generalizing server with
  | nil => simp [addTools]
  | cons tool rest ih =>
    have hnone : mcpServerFindToolByHash server tool.name = none := by
      rw [find_eq_none h]
      intro t ht
      rw [List.map_append, List.nodup_append] at hnames
      exact hnames.2.2 _ (List.mem_map_of_mem ht) _ (by simp)
    rcases addTool_cases server tool with ⟨⟨t, hfind⟩, -⟩ | ⟨-, capacity, -, heq⟩
    · rw [hnone] at hfind
      exact absurd hfind.symm (Option.some_ne_none t)
    · have hnext := addTool_inStep h tool
      rw [heq] at hnext
      rw [addTools, heq, ih hnext (by simpa using hnames)]
      simp

/-! ## The registry after any registrations -/

/-- The array and the buckets hold the same tools, so a tool is listed exactly when a
call finds it, and a name is refused exactly when it is taken. -/
theorem registry_in_step (serverName : Option CStr) (calls : List (McpTool W)) :
    let run := addTools (mcpServerInit serverName) calls
    let server := run.2
    (server.tools.map (·.name)).Nodup ∧
    server.tools = ((calls.zip run.1).filter (·.2)).map (·.1) ∧
    server.count ≤ server.capacity ∧
    ∑ hash, (server.toolHash hash : Multiset (McpTool W)) = server.tools ∧
    (∀ hash, ∀ tool ∈ server.toolHash hash, toolNameHash tool.name = hash) ∧
    (∀ name, mcpServerFindToolByHash server name =
      server.tools.find? fun tool => tool.name == name) ∧
    (∀ name, mcpServerFindToolByHash server name = none ↔
      ∀ tool ∈ server.tools, tool.name ≠ name) ∧
    (∀ tool, (mcpServerAddTool .plenty server tool).1 = false ↔
      ∃ t ∈ server.tools, t.name = tool.name) ∧
    (∀ tool, (mcpServerAddTool .plenty server tool).1 = false →
      (mcpServerAddTool .plenty server tool).2 = server) ∧
    (∀ tool, tool ∈ server.tools ↔ mcpServerFindToolByHash server tool.name = some tool) := by
  intro run server
  have h : server.InStep := addTools_inStep (init_inStep serverName) calls
  refine ⟨h.names_nodup, ?_, h.count_le_capacity, h.indexes.sum, fun _ _ => h.indexes.mem,
    find_eq h, fun _ => find_eq_none h, addTool_result h, fun _ => addTool_refused, ?_⟩
  · exact addTools_tools (mcpServerInit serverName) calls
  · intro tool
    rw [find_eq_some h]
    simp

end MlinkDevice
