import MlinkDevice.Pages

/-!
# Where a cursor resumes

`nextCursor` is the name of the tool at which the page stops, in a buffer of 64 bytes.
The next request looks for it by comparing names.
-/

open MlinkDevice.CStr

namespace MlinkDevice

variable {W : Type} {L : CJsonLib}

/-- The page carries a `nextCursor`, the request made with it scans the visible tools from `tool`
on, and its loop ends as the one that is given these tools alone, without cursor. -/
def ResumesAt (L : CJsonLib) (server : McpServer W) (cursor : Option CStr) (includeUserTools : Bool)
    (tool : McpTool W) : Prop :=
  let st := finalPage L server cursor includeUserTools
  ∃ next before after,
    (pageJson st.tools st.nextCursor).member (lit "nextCursor") = some (.string next) ∧
    visible server includeUserTools = before ++ tool :: after ∧
    scanned (some next) includeUserTools server.tools (starts (some next)) = tool :: after ∧
    finalPage L server (some next) includeUserTools =
      listTools L none includeUserTools (tool :: after) { start := true }

theorem pageJson_nextCursor (tools : List CJson) (cursor : CStr) :
    (pageJson tools cursor).member (lit "nextCursor") =
      if cursor.first ≠ 0 then some (.string cursor) else none := by
  unfold pageJson
  split_ifs <;> rfl

theorem sought_some {cursor : CStr} (h : cursor.first ≠ 0) : sought (some cursor) = some cursor := by
  simp [sought, h]

theorem strncpy_first {s : CStr} {n : ℕ} (h : (s.strncpy n).first ≠ 0) : 1 ≤ s.strlen := by
  rw [Ne, first_eq_zero, ← strlen_eq_zero, strlen_strncpy] at h
  omega

/-! ## A tool that no page can hold -/

def oversized (name : CStr) : McpTool Unit where
  name
  description := letters 8000
  properties := []
  callback := none
  userOnly := false

def oversizedServer (name : CStr) : McpServer Unit :=
  (addTools (mcpServerInit none) [oversized name]).2

theorem oversizedServer_reachable (name : CStr) : Reachable (oversizedServer name) :=
  ⟨none, [oversized name], rfl⟩

theorem oversizedServer_tools (name : CStr) : (oversizedServer name).tools = [oversized name] := rfl

theorem oversized_finalPage (name : CStr) : finalPage L (oversizedServer name) none false =
    { start := true, nextCursor := name.strncpy 63, stopped := some (oversized name) } := by
  rw [finalPage, oversizedServer_tools, listTools, if_neg (by simp [oversized]),
    if_neg (by simp [starts]), if_pos]
  · rfl
  · simp only [maxPayload, toolSizeEstimate, oversized, strlen_letters]
    omega

/-! ## Resuming -/

/-- A listing resumes at the tool where the page stopped exactly when the name of the tool
fits in the buffer and is not empty. -/
theorem resumesAt_iff {server : McpServer W} (hnames : (server.tools.map (·.name)).Nodup)
    (cursor : Option CStr) (includeUserTools : Bool) {tool : McpTool W}
    (hstop : (finalPage L server cursor includeUserTools).stopped = some tool) :
    ResumesAt L server cursor includeUserTools tool ↔
      1 ≤ tool.name.strlen ∧ tool.name.strlen ≤ 63 := by
  obtain ⟨hnext, hmem⟩ := listTools_stopped rfl hstop
  have hmember : ∀ next, (pageJson (finalPage L server cursor includeUserTools).tools
      (finalPage L server cursor includeUserTools).nextCursor).member (lit "nextCursor") =
        some (.string next) ↔ next.first ≠ 0 ∧ next = tool.name.strncpy 63 := by
    intro next
    rw [pageJson_nextCursor, finalPage, hnext]
    constructor
    · intro h
      split_ifs at h with hfirst
      obtain rfl : tool.name.strncpy 63 = next := by simpa using h
      exact ⟨hfirst, rfl⟩
    · rintro ⟨hfirst, rfl⟩
      rw [if_pos hfirst]
  constructor
  · rintro ⟨next, before, after, hjson, -, hscanned, -⟩
    obtain ⟨hfirst, rfl⟩ := (hmember next).mp hjson
    rw [scanned_eq, sought_some hfirst] at hscanned
    exact ⟨strncpy_first hfirst, strncpy_eq_self.mp (Paging.resume_head hscanned).symm⟩
  · rintro ⟨hpos, hle⟩
    have hself := strncpy_of_le hle
    have hfirst : tool.name.first ≠ 0 := by
      rw [Ne, first_eq_zero, ← strlen_eq_zero]
      omega
    obtain ⟨before, after, hsplit⟩ := List.append_of_mem hmem
    have hscanned : scanned (some tool.name) includeUserTools server.tools
        (starts (some tool.name)) = tool :: after := by
      rw [scanned_eq, sought_some hfirst, hsplit]
      apply Paging.resume_split
      rw [← hsplit]
      exact hnames.sublist (List.filter_sublist.map _)
    exact ⟨tool.name, before, after, (hmember _).mpr ⟨hfirst, hself.symm⟩, hsplit, hscanned,
      listTools_found hscanned⟩

theorem resumesAt_iff_oversized : ResumesAt CJsonLib.reference (oversizedServer (lit "ping")) none false
    (oversized (lit "ping")) ↔ 1 ≤ (lit "ping").strlen ∧ (lit "ping").strlen ≤ 63 :=
  resumesAt_iff (by rw [oversizedServer_tools]; simp) none false (by rw [oversized_finalPage])

/-- The cursor of a page that stops at a tool with that name is no tool's name. -/
theorem long_name_not_resumed :
    Reachable (oversizedServer (letters 64)) ∧
    (finalPage CJsonLib.reference (oversizedServer (letters 64)) none false).stopped =
      some (oversized (letters 64)) ∧
    ¬ResumesAt CJsonLib.reference (oversizedServer (letters 64)) none false (oversized (letters 64)) := by
  refine ⟨oversizedServer_reachable _, by rw [oversized_finalPage], ?_⟩
  rintro ⟨next, before, after, hjson, -, hscanned, -⟩
  rw [oversized_finalPage, pageJson_nextCursor, if_pos (by decide)] at hjson
  obtain rfl : (letters 64).strncpy 63 = next := by simpa using hjson
  rw [scanned_eq, sought_some (by decide)] at hscanned
  have := congrArg strlen (Paging.resume_head hscanned)
  revert this
  decide

end MlinkDevice
