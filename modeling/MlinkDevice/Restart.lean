import MlinkDevice.Dispatch
import MlinkDevice.Lifecycle

/-!
# Restarting the server

`mlink_server_destroy` stops the worker and drops the transport, but the static flag of
`mcp_server.c` stays set, so the next init keeps the registry and creates no worker.
-/

open MlinkDevice.CStr

namespace MlinkDevice

variable {W : Type}

/-- What can be seen of a server initialised for the first time: its name, that it lists only
tools registered from then on, that any name is free, and its worker. -/
structure Process.Fresh (p : Process W) (name : CStr) : Prop where
  name : ((initializeJson p.server).member (lit "serverInfo")).bind (·.member (lit "name")) =
    some (.string name)
  listed : ∀ calls, ∀ tool ∈ (addTools p.server calls).2.tools, tool ∈ calls
  free : ∀ tool, (mcpServerAddTool .plenty p.server tool).1 = true
  worker : p.worker = true

/-- The server was initialised and given to a destroy since. -/
structure Process.Destroyed (p : Process W) : Prop where
  initialized : p.initialized = true
  worker : p.worker = false

/-- The registry between the calls of any run: the buckets hold listed tools, and the name is
not empty. -/
structure McpServer.Kept (server : McpServer W) : Prop where
  buckets : ∀ hash, ∀ tool ∈ server.toolHash hash, tool ∈ server.tools
  name : server.serverName.first ≠ 0

/-! ## The registry over the calls -/

theorem first_strncpy {name : CStr} (h : name.first ≠ 0) : (name.strncpy 127).first ≠ 0 := by
  rw [Ne, first_eq_zero, ← bytes_injective, bytes_strncpy] at *
  rw [bytes_empty] at *
  simpa using h

theorem init_kept (name : Option CStr) : (mcpServerInit name : McpServer W).Kept where
  buckets _ _ h := absurd h List.not_mem_nil
  name := by
    have hdefault : (lit "MCP_SERVER").first ≠ 0 := by decide
    unfold mcpServerInit
    cases name with
    | none => exact hdefault
    | some name =>
      dsimp only
      split
      · rename_i hname
        exact first_strncpy hname
      · exact hdefault

theorem addTool_kept {server : McpServer W} (h : server.Kept) (memory : AddToolMemory)
    (tool : McpTool W) : (mcpServerAddTool memory server tool).2.Kept := by
  rcases addTool_outcome memory server tool with ⟨-, heq⟩ | ⟨-, -, capacity, -, heq⟩
  · rw [heq]
    exact h
  · rw [heq]
    refine ⟨fun hash t ht => ?_, h.name⟩
    rw [List.mem_append]
    dsimp only at ht
    split at ht
    · by_cases hhash : hash = toolNameHash tool.name
      · subst hhash
        rw [Function.update_self, List.mem_append] at ht
        exact ht.imp_left (h.buckets _ t)
      · rw [Function.update_of_ne hhash] at ht
        exact .inl (h.buckets _ t ht)
    · exact .inl (h.buckets _ t ht)

theorem processStep_kept (p : Process W) (call : ProcessCall W) (q : Process W)
    (h : p.server.Kept) (hstep : processStep p call = some q) : q.server.Kept := by
  obtain rfl := Option.some.inj hstep
  rcases processCall_cases p call with ⟨type, name, o, -, heq⟩ | heq | ⟨memory, tool, heq⟩ |
    ⟨callback, heq⟩ | heq
  all_goals rw [heq]
  · rw [(mlinkServerInit_frame p type name o).2.1, mcpServerInitOnce]
    split
    · exact h
    · exact init_kept name
  · exact h
  · exact addTool_kept h memory tool
  · exact h
  · exact h

/-! ## The worker over the calls -/

/-- **Step.** No call gives a destroyed server its worker back. -/
theorem processStep_destroyed (p : Process W) (call : ProcessCall W) (q : Process W)
    (h : p.Destroyed) (hstep : processStep p call = some q) : q.Destroyed := by
  obtain rfl := Option.some.inj hstep
  rcases processCall_cases p call with ⟨type, name, o, -, heq⟩ | heq | ⟨memory, tool, heq⟩ |
    ⟨callback, heq⟩ | heq
  all_goals rw [heq]
  · obtain ⟨hinit, -, hworker⟩ := mlinkServerInit_frame p type name o
    unfold mcpServerInitOnce at hinit hworker
    rw [if_pos h.initialized] at hinit hworker
    exact ⟨hinit.trans h.initialized, hworker.trans h.worker⟩
  · exact h
  · exact ⟨h.initialized, h.worker⟩
  · exact ⟨h.initialized, h.worker⟩
  · exact ⟨h.initialized, rfl⟩

theorem destroy_destroyed {p : Process W} (h : p.initialized = true) :
    (processCall p (.destroy true)).Destroyed := by
  simp only [processCall, h, Bool.and_self, if_true]
  exact ⟨h, rfl⟩

/-! ## The first init and the later ones -/

theorem reportedName {server : McpServer W} (h : server.serverName.first ≠ 0) :
    ((initializeJson server).member (lit "serverInfo")).bind (·.member (lit "name")) =
      some (.string server.serverName) := by
  unfold initializeJson mcpServerAddServerInfo
  rw [if_pos h]
  rfl

theorem fresh_iff {p : Process W} (h : p.server.Kept) (name : CStr) :
    p.Fresh name ↔
      p.worker = true ∧ p.server.tools = [] ∧ p.server.serverName = name := by
  constructor
  · intro hfresh
    refine ⟨hfresh.worker, ?_, ?_⟩
    · rw [List.eq_nil_iff_forall_not_mem]
      exact fun tool htool => List.not_mem_nil (hfresh.listed [] tool htool)
    · have hname := hfresh.name
      rw [reportedName h.name] at hname
      simpa using hname
  · rintro ⟨hworker, htools, rfl⟩
    have hempty : ∀ hash, p.server.toolHash hash = [] := fun hash =>
      List.eq_nil_iff_forall_not_mem.mpr fun tool htool => by
        have := h.buckets hash tool htool
        rw [htools] at this
        exact List.not_mem_nil this
    refine ⟨reportedName h.name, fun calls tool htool => ?_, fun tool => ?_, hworker⟩
    · simpa [htools] using addTools_mem htool
    · rcases addTool_cases p.server tool with ⟨⟨t, hfind⟩, -⟩ | ⟨-, capacity, -, heq⟩
      · unfold mcpServerFindToolByHash at hfind
        rw [hempty] at hfind
        exact absurd hfind.symm (Option.some_ne_none t)
      · rw [heq]

/-- After an init the server is as good as new exactly when it had not been initialised before,
or when it still has its worker, no tools and that name. Once it was given to a destroy it never
is. -/
theorem fresh_after_init_iff (calls : List (ProcessCall W)) (p : Process W)
    (hrun : Runs.run processStep {} calls = some p) (type : TransportType) (name : CStr)
    (hname : name.first ≠ 0) (hlen : name.strlen < 128) (o : Outcome) (hworker : o.worker = true) :
    let q := (mlinkServerInit p type (some name) o).2
    (q.Fresh name ↔ p.initialized = false ∨
      (p.worker = true ∧ p.server.tools = [] ∧ p.server.serverName = name)) ∧
    (∀ before after r, calls = before ++ .destroy true :: after →
      Runs.run processStep {} before = some r → r.initialized = true → ¬ q.Fresh name) := by
  have hkept : p.server.Kept := Runs.run_invariant (fun p => p.server.Kept)
    (fun p call q h _ => processStep_kept p call q h) (init_kept none) (Runs.along_true _ _) hrun
  have hkept' : (mlinkServerInit p type (some name) o).2.server.Kept :=
    processStep_kept p (.init type (some name) o) _ hkept rfl
  obtain ⟨-, hserver, hkeeps⟩ := mlinkServerInit_frame p type (some name) o
  intro q
  refine ⟨?_, fun before after r hcalls hbefore hinit hfresh => ?_⟩
  · rw [fresh_iff hkept', hserver, hkeeps, mcpServerInitOnce]
    cases hinit : p.initialized with
    | false =>
      have hsame : name.strncpy 127 = name := strncpy_of_le (by omega)
      simp [mcpServerInit, hworker, hname, hsame]
    | true => simp
  · have hdestroyed : p.Destroyed := by
      rw [hcalls, Runs.run_append, hbefore, Option.bind_some] at hrun
      obtain ⟨s, hs, hrun⟩ := Runs.run_cons.mp hrun
      obtain rfl := Option.some.inj hs
      exact Runs.run_invariant Process.Destroyed
        (fun p call q h _ => processStep_destroyed p call q h) (destroy_destroyed hinit)
        (Runs.along_true _ _) hrun
    have hworker' := hfresh.worker
    rw [hkeeps, mcpServerInitOnce, if_pos hdestroyed.initialized, hdestroyed.worker] at hworker'
    exact Bool.noConfusion hworker'

/-- A destroy of NULL leaves the first init fresh. After an init, a tool and a destroy the next one
is not. -/
theorem fresh_after_init_iff_again :
    let init (p : Process Unit) (name : CStr) := (mlinkServerInit p .tcp (some name) .success).2
    let untouched := [.destroy false].foldl processCall {}
    let destroyed := [.init .tcp (some (lit "one")) .success, .addTool true .plenty ping,
      .destroy true].foldl processCall {}
    (init untouched (lit "one")).Fresh (lit "one") ∧ ¬(init destroyed (lit "two")).Fresh (lit "two") := by
  intro init untouched destroyed
  constructor
  · exact (fresh_after_init_iff [.destroy false] untouched rfl .tcp (lit "one") (by decide) (by decide)
      .success rfl).1.mpr (.inl rfl)
  · exact (fresh_after_init_iff _ destroyed rfl .tcp (lit "two") (by decide) (by decide) .success
      rfl).2 [.init .tcp (some (lit "one")) .success, .addTool true .plenty ping] [] _ rfl rfl rfl

/-- Init as "one", a tool, destroy, init as "two": the server is still "one", still has the tool,
refuses its name and has no worker. -/
theorem restart_keeps_registry :
    let p := [.init .tcp (some (lit "one")) .success, .addTool true .plenty ping, .destroy true,
      .init .tcp (some (lit "two")) .success].foldl processCall ({} : Process Unit)
    p.server.serverName = lit "one" ∧ p.server.tools = [ping] ∧
      (mcpServerAddTool .plenty p.server ping).1 = false ∧ p.worker = false ∧
      ¬ p.Fresh (lit "two") := by
  intro p
  have hworker : p.worker = false := rfl
  refine ⟨rfl, rfl, rfl, hworker, fun hfresh => ?_⟩
  exact Bool.noConfusion (hworker.symm.trans hfresh.worker)

end MlinkDevice
