import MlinkDevice.Dispatch
import MlinkDevice.Runs

/-!
# Registration when memory runs out

`mcp_server_add_tool` stores the tool in the array first and in its bucket second, and the
bucket may fail to grow after the array has changed.
-/

namespace MlinkDevice

variable {W : Type}

/-! ## One registration -/

/-- The registration is refused and nothing has changed, or it is complete. -/
def RegistersAtomically (memory : AddToolMemory) (server : McpServer W) (tool : McpTool W) :
    Prop :=
  let added := mcpServerAddTool memory server tool
  (added.1 = false ∧ added.2.tools = server.tools ∧ added.2.toolHash = server.toolHash) ∨
  (added.1 = true ∧ tool ∈ added.2.tools ∧
    mcpServerFindToolByHash added.2 tool.name = some tool)

/-- The bucket gets its memory, where the registration gets as far as the bucket. -/
def AddToolMemory.Serves (memory : AddToolMemory) (server : McpServer W) (tool : McpTool W) :
    Prop :=
  memory.Refuses server tool ∨ memory.bucket = true

theorem AddToolMemory.not_refuses {memory : AddToolMemory} {server : McpServer W}
    {tool : McpTool W} (hnone : mcpServerFindToolByHash server tool.name = none)
    (hroom : memory.tools = false → server.count < server.capacity) :
    ¬ memory.Refuses server tool := by
  rintro (⟨t, hfind⟩ | ⟨hfull, hmem⟩)
  · rw [hnone] at hfind
    exact Option.some_ne_none t hfind.symm
  · exact absurd (hroom hmem) (by omega)

theorem find_append {server : McpServer W} {tool : McpTool W} {tools : List (McpTool W)}
    {capacity : ℕ} (hnone : mcpServerFindToolByHash server tool.name = none) :
    mcpServerFindToolByHash { server with
      tools
      capacity
      toolHash := Function.update server.toolHash (toolNameHash tool.name)
        (server.toolHash (toolNameHash tool.name) ++ [tool]) } tool.name = some tool := by
  unfold mcpServerFindToolByHash at hnone ⊢
  simp only [Function.update_self, List.find?_append, hnone]
  simp

theorem registersAtomically_iff (memory : AddToolMemory) (server : McpServer W)
    (tool : McpTool W) :
    RegistersAtomically memory server tool ↔ memory.Serves server tool := by
  unfold RegistersAtomically AddToolMemory.Serves
  rcases addTool_outcome memory server tool with
    ⟨hrefuse, heq⟩ | ⟨hnone, hroom, capacity, -, heq⟩
  · rw [heq]
    exact ⟨fun _ => .inl hrefuse, fun _ => .inl ⟨rfl, rfl, rfl⟩⟩
  · simp only [heq, AddToolMemory.not_refuses hnone hroom, false_or, Bool.true_eq_false, false_and,
      List.mem_append, List.mem_singleton, or_true, true_and]
    constructor
    · intro hfound
      by_contra hbucket
      rw [if_neg hbucket] at hfound
      exact Option.some_ne_none tool (hfound.symm.trans hnone)
    · intro hbucket
      rw [if_pos hbucket]
      exact find_append hnone

theorem addTool_hidden {memory : AddToolMemory} {server : McpServer W} {tool : McpTool W}
    (h : ¬ memory.Serves server tool) :
    let failed := mcpServerAddTool memory server tool
    let again := mcpServerAddTool .plenty failed.2 tool
    failed.1 = true ∧ failed.2.tools = server.tools ++ [tool] ∧
      mcpServerFindToolByHash failed.2 tool.name = none ∧
      again.1 = true ∧ again.2.tools = server.tools ++ [tool, tool] := by
  intro failed again
  obtain ⟨hrefuse, hbucket⟩ := not_or.mp h
  rcases addTool_outcome memory server tool with ⟨hrefuse', -⟩ | ⟨hnone, -, capacity, -, heq⟩
  · exact absurd hrefuse' hrefuse
  · rw [if_neg hbucket] at heq
    have hfailed : mcpServerFindToolByHash failed.2 tool.name = none := by
      simp only [failed, heq]
      exact hnone
    rcases addTool_cases failed.2 tool with ⟨⟨t, hfind⟩, -⟩ | ⟨-, more, -, hagain⟩
    · exact absurd (hfind.symm.trans hfailed) (Option.some_ne_none t)
    · refine ⟨by simp [failed, heq], by simp [failed, heq], hfailed, ?_, ?_⟩
      · simp only [again, hagain]
      · simp [again, hagain, failed, heq]

/-! ## Any registrations -/

/-- Every listed tool can be called, and no name is listed twice. -/
structure McpServer.Callable (server : McpServer W) : Prop where
  found : ∀ tool ∈ server.tools, mcpServerFindToolByHash server tool.name = some tool
  names_nodup : (server.tools.map (·.name)).Nodup

def registerStep (server : McpServer W) (call : AddToolMemory × McpTool W) :
    Option (McpServer W) :=
  some (mcpServerAddTool call.1 server call.2).2

theorem McpServer.InStep.callable {server : McpServer W} (h : server.InStep) :
    server.Callable where
  found _ htool := (find_eq_some h).mpr ⟨htool, rfl⟩
  names_nodup := h.names_nodup

/-- **Step.** A registration whose bucket gets its memory keeps the array and the buckets in
step. -/
theorem registerStep_inStep (server : McpServer W) (call : AddToolMemory × McpTool W)
    (next : McpServer W) (h : server.InStep) (hserves : call.1.Serves server call.2)
    (hstep : registerStep server call = some next) : next.InStep := by
  obtain rfl := Option.some.inj hstep
  rcases addTool_outcome call.1 server call.2 with
    ⟨-, heq⟩ | ⟨hnone, hroom, capacity, hcap, heq⟩
  · rw [heq]
    exact h
  · rw [heq, if_pos (hserves.resolve_left (AddToolMemory.not_refuses hnone hroom))]
    exact h.append hnone hcap

theorem registerStep_serves (server : McpServer W) (call : AddToolMemory × McpTool W)
    (next : McpServer W) (hstep : registerStep server call = some next)
    (hnext : next.Callable) : call.1.Serves server call.2 := by
  obtain rfl := Option.some.inj hstep
  rcases addTool_outcome call.1 server call.2 with ⟨hrefuse, -⟩ | ⟨-, -, capacity, -, heq⟩
  · exact .inl hrefuse
  · have hmem : call.2 ∈ (mcpServerAddTool call.1 server call.2).2.tools := by
      rw [heq]
      simp
    refine (registersAtomically_iff ..).mp (.inr ⟨by rw [heq], hmem, hnext.found _ hmem⟩)

/-- A registration is atomic exactly when its bucket gets the memory it asks for. In a run of
registrations every listed tool can be called and no name is listed twice, all along, exactly
when that is so of each of them. -/
theorem registration_atomic_iff (serverName : Option CStr)
    (calls : List (AddToolMemory × McpTool W)) :
    (∀ memory (server : McpServer W) tool,
      RegistersAtomically memory server tool ↔ memory.Serves server tool) ∧
    (Runs.Always registerStep McpServer.Callable (mcpServerInit serverName) calls ↔
      Runs.Along registerStep (fun server call => call.1.Serves server call.2)
        (mcpServerInit serverName) calls) := by
  refine ⟨registersAtomically_iff, ?_⟩
  apply Runs.always_iff_along (fun _ => McpServer.InStep.callable) registerStep_inStep
    (fun server call next _ => registerStep_serves server call next) (init_inStep serverName)
  exact Runs.run_isSome (fun _ _ => rfl)

/-- The bucket of the first tool fails: the tool is listed, no call finds it, and its name
can be registered again. -/
theorem bucket_failure_hides_tool :
    let failed := mcpServerAddTool ⟨true, false⟩ (mcpServerInit none) ping
    let again := mcpServerAddTool .plenty failed.2 ping
    ¬ RegistersAtomically ⟨true, false⟩ (mcpServerInit none) ping ∧
    failed.1 = true ∧ failed.2.tools = [ping] ∧
    mcpServerFindToolByHash failed.2 ping.name = none ∧
    again.1 = true ∧ again.2.tools = [ping, ping] := by
  have hserves : ¬ AddToolMemory.Serves ⟨true, false⟩ (mcpServerInit none) ping := by
    rintro ((⟨t, hfind⟩ | ⟨-, hmem⟩) | hbucket)
    · exact Option.some_ne_none t hfind.symm
    · exact Bool.noConfusion hmem
    · exact Bool.noConfusion hbucket
  exact ⟨fun h => hserves ((registersAtomically_iff ..).mp h), addTool_hidden hserves⟩

end MlinkDevice
