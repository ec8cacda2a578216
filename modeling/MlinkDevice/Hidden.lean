import MlinkDevice.Listing

/-!
# User-only tools

A listing without `withUserTools` says nothing about the tools with `user_only` set.
-/

open MlinkDevice.CStr

namespace MlinkDevice

variable {W : Type} {L : CJsonLib}

/-! ## The registry without them -/

def ordinary (tools : List (McpTool W)) : List (McpTool W) := tools.filter fun tool => !tool.userOnly

/-- The registry with every user-only tool deleted. -/
def McpServer.withoutUserOnly (server : McpServer W) : McpServer W :=
  { server with
    tools := ordinary server.tools
    toolHash := fun hash => ordinary (server.toolHash hash) }

theorem McpServer.InStep.withoutUserOnly {server : McpServer W} (h : server.InStep) :
    server.withoutUserOnly.InStep where
  names_nodup := h.names_nodup.sublist (List.filter_sublist.map _)
  count_le_capacity := (List.length_filter_le _ _).trans h.count_le_capacity
  indexes hash := by
    simp only [McpServer.withoutUserOnly, ordinary, h.indexes hash, List.filter_filter]
    exact List.filter_congr fun tool _ => Bool.and_comm ..

/-! ## The listing -/

/-- **Step.** The loop passes over a user-only tool and treats any other one alike, with
either flag. -/
theorem listTools_ordinary (cursor : Option CStr) (includeUserTools : Bool)
    (tools : List (McpTool W)) (st : PageState W) :
    listTools L cursor false tools st = listTools L cursor includeUserTools (ordinary tools) st := by
  induction tools generalizing st with
  | nil => rfl
  | cons tool rest ih =>
    unfold ordinary at ih ⊢
    cases huser : tool.userOnly with
    | true =>
      rw [List.filter_cons_of_neg (by simp [huser]), listTools, if_pos (by simp [huser])]
      exact ih st
    | false =>
      rw [List.filter_cons_of_pos (by simp [huser])]
      simp only [listTools, huser, Bool.and_false, Bool.false_eq_true, if_false, ih]

theorem buildToolsList_ordinary {server server' : McpServer W}
    (h : ordinary server.tools = ordinary server'.tools) (cursor : Option CStr) :
    mcpServerBuildToolsList L server cursor false =
      mcpServerBuildToolsList L server' cursor false := by
  unfold mcpServerBuildToolsList finalPage
  rw [listTools_ordinary cursor false server.tools, h, ← listTools_ordinary]

/-! ## Any requests -/

/-- The message is a `tools/list` request without `withUserTools`, if it is a request. -/
def ListsOrdinary (L : CJsonLib) (message : CStr) : Prop :=
  ∀ r, requestOf L message = some r →
    r.method = lit "tools/list" ∧ includeUserToolsOf r.params = false

theorem parseMessage_ordinary {server server' : McpServer W}
    (h : ordinary server.tools = ordinary server'.tools) {message : CStr}
    (hmessage : ListsOrdinary L message) (w : W) :
    mcpServerParseMessage L server message w = mcpServerParseMessage L server' message w := by
  rw [parseMessage_eq, parseMessage_eq]
  cases hr : requestOf L message with
  | none => rfl
  | some r =>
    obtain ⟨hmethod, hflag⟩ := hmessage r hr
    have hinit : lit "tools/list" ≠ lit "initialize" := by decide
    simp only [dispatch, hmethod, hflag, if_neg hinit, if_true, buildToolsList_ordinary h]

/-- **Run.** Servers with the same ordinary tools answer any such messages alike. -/
theorem parseMessages_ordinary {server server' : McpServer W}
    (h : ordinary server.tools = ordinary server'.tools) {messages : List CStr}
    (hmessages : ∀ message ∈ messages, ListsOrdinary L message) (w : W) :
    parseMessages L server messages w = parseMessages L server' messages w := by
  induction messages generalizing w with
  | nil => rfl
  | cons message rest ih =>
    obtain ⟨hmessage, hrest⟩ := List.forall_mem_cons.mp hmessages
    simp only [parseMessages, parseMessage_ordinary h hmessage w, ih hrest]

/-- A listing without `withUserTools` is the listing of the registry without its user-only
tools. So servers that differ in those tools alone answer any such requests alike. -/
theorem user_only_unseen (L : CJsonLib) (server : McpServer W) :
    (∀ cursor includeUserTools, mcpServerBuildToolsList L server cursor false =
      mcpServerBuildToolsList L server.withoutUserOnly cursor includeUserTools) ∧
    (∀ server' : McpServer W, ordinary server.tools = ordinary server'.tools →
      ∀ messages, (∀ message ∈ messages, ListsOrdinary L message) → ∀ w,
        parseMessages L server messages w = parseMessages L server' messages w) := by
  refine ⟨fun cursor includeUserTools => ?_, fun server' h messages => parseMessages_ordinary h⟩
  unfold mcpServerBuildToolsList finalPage
  rw [listTools_ordinary cursor includeUserTools server.tools]
  rfl

def secret : McpTool Unit := { ping with name := lit "secret", userOnly := true }

def secretServer : McpServer Unit := (addTools (mcpServerInit none) [secret, ping]).2

theorem secretServer_tools : secretServer.tools = [secret, ping] := by
  rw [secretServer, addTools_of_nodup (init_inStep none) (by decide)]
  rfl

/-- The cursor is the name of the tool that only one of the servers has. -/
theorem user_only_unseen_secret :
    parseMessages CJsonLib.reference secretServer
        [CJsonLib.reference.print (listRequest 1 false (some (lit "secret")))] () =
      parseMessages CJsonLib.reference pingServer
        [CJsonLib.reference.print (listRequest 1 false (some (lit "secret")))] () := by
  have hordinary : ordinary secretServer.tools = ordinary pingServer.tools := by
    rw [secretServer_tools]
    rfl
  refine (user_only_unseen CJsonLib.reference secretServer).2 pingServer hordinary _ ?_ ()
  rintro message hmessage r hr
  obtain rfl := List.mem_singleton.mp hmessage
  rw [listRequest, requestOf_requestJson CJsonLib.reference_roundTrips _ _ (by simp [listParams])]
    at hr
  obtain rfl := Option.some.inj hr
  exact ⟨rfl, rfl⟩

end MlinkDevice
