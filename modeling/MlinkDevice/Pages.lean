import MlinkDevice.Paging
import MlinkDevice.Protocol

/-!
# The pages of `tools/list`

The loop over the tools fills a page from the visible tools, and a cursor resumes it.
-/

open MlinkDevice.CStr

namespace MlinkDevice

variable {W : Type} {L : CJsonLib}

/-! ## What a page is filled from -/

def isVisible (includeUserTools : Bool) (tool : McpTool W) : Bool :=
  includeUserTools || !tool.userOnly

def visible (server : McpServer W) (includeUserTools : Bool) : List (McpTool W) :=
  server.tools.filter (isVisible includeUserTools)

def estimate (page : List (McpTool W)) : ℕ := 50 + (page.map toolSizeEstimate).sum

def pageText (L : CJsonLib) (page : List (McpTool W)) : CStr :=
  L.print (pageJson (page.map McpTool.json) ∅)

/-- Both size tests of the loop let the tool on the page. -/
def admits (L : CJsonLib) (page : List (McpTool W)) (tool : McpTool W) : Bool :=
  estimate page + toolSizeEstimate tool ≤ maxPayload &&
    (estimate page + (L.print tool.json).strlen ≤ maxPayload * 9 / 10 ||
      (L.print tool.json).strlen + (pageText L page).strlen ≤ maxPayload)

/-- The name that the loop looks for before it starts. The empty one counts as none. -/
def sought (cursor : Option CStr) : Option CStr := cursor.filter fun cursor => cursor.first != 0

/-- The tools that the loop meets with `start` set. -/
def scanned (cursor : Option CStr) (includeUserTools : Bool) :
    List (McpTool W) → Bool → List (McpTool W)
  | [], _ => []
  | tool :: rest, start =>
    if !includeUserTools && tool.userOnly then scanned cursor includeUserTools rest start
    else if !start && cursor != some tool.name then scanned cursor includeUserTools rest start
    else tool :: scanned cursor includeUserTools rest true

def pageState (page : List (McpTool W)) : PageState W where
  start := true
  tools := page.map McpTool.json
  estimatedSize := estimate page

/-! ## The loop -/

theorem isVisible_iff {includeUserTools : Bool} {tool : McpTool W} :
    isVisible includeUserTools tool = true ↔ ¬(!includeUserTools && tool.userOnly) = true := by
  cases includeUserTools <;> simp [isVisible]

theorem listTools_hidden {cursor : Option CStr} {includeUserTools : Bool} {tool : McpTool W}
    (h : isVisible includeUserTools tool = false) (rest : List (McpTool W)) (st : PageState W) :
    listTools L cursor includeUserTools (tool :: rest) st =
      listTools L cursor includeUserTools rest st := by
  rw [listTools, if_pos (by simpa [isVisible] using h)]

theorem listTools_step (hL : L.RoundTrips) {cursor : Option CStr} {includeUserTools : Bool}
    {tool : McpTool W} (h : isVisible includeUserTools tool = true) (rest page : List (McpTool W)) :
    listTools L cursor includeUserTools (tool :: rest) (pageState page) =
      if admits L page tool then listTools L cursor includeUserTools rest (pageState (page ++ [tool]))
      else { pageState page with nextCursor := tool.name.strncpy 63, stopped := some tool } := by
  rw [listTools, if_neg (isVisible_iff.mp h), if_neg (by simp [pageState])]
  simp only [mcpToolToJson_eq hL, hL.parse_print _ tool.json_plain]
  have hsize : (pageState page).estimatedSize = estimate page := rfl
  by_cases hestimate : maxPayload < (pageState page).estimatedSize + toolSizeEstimate tool
  · have hadmits : admits L page tool = false := by simp [admits]; omega
    rw [hadmits, if_pos hestimate]
    rfl
  · rw [if_neg hestimate]
    by_cases hlength :
        maxPayload * 9 / 10 < (pageState page).estimatedSize + (L.print tool.json).strlen ∧
        maxPayload < (L.print tool.json).strlen + (pageText L page).strlen
    · have hadmits : admits L page tool = false := by simp [admits]; omega
      rw [hadmits]
      exact if_pos hlength
    · have hadmits : admits L page tool = true := by simp [admits]; omega
      have hnext : pageState (page ++ [tool]) = { pageState page with
          tools := (pageState page).tools ++ [tool.json]
          estimatedSize := (pageState page).estimatedSize + toolSizeEstimate tool } := by
        simp [pageState, estimate, Nat.add_assoc]
      rw [hadmits, hnext]
      exact if_neg hlength

def cursorAt (left : List (McpTool W)) : CStr :=
  (left.head?.map fun tool => tool.name.strncpy 63).getD ∅

def endState (filled : List (McpTool W) × List (McpTool W)) : PageState W :=
  { pageState filled.1 with nextCursor := cursorAt filled.2, stopped := filled.2.head? }

/-- **Run.** Once started, the loop fills the page from the visible tools. -/
theorem listTools_started (hL : L.RoundTrips) (cursor : Option CStr) (includeUserTools : Bool)
    (tools page : List (McpTool W)) :
    listTools L cursor includeUserTools tools (pageState page) =
      endState (Paging.fill (admits L) page (tools.filter (isVisible includeUserTools))) := by
  induction tools generalizing page with
  | nil => rfl
  | cons tool rest ih =>
    cases h : isVisible includeUserTools tool with
    | false => rw [listTools_hidden h, ih, List.filter_cons_of_neg (by simp [h])]
    | true =>
      rw [listTools_step hL h, List.filter_cons_of_pos h, Paging.fill]
      split
      · exact ih _
      · rfl

theorem scanned_hidden {cursor : Option CStr} {includeUserTools : Bool} {tool : McpTool W}
    (h : isVisible includeUserTools tool = false) (rest : List (McpTool W)) (start : Bool) :
    scanned cursor includeUserTools (tool :: rest) start =
      scanned cursor includeUserTools rest start := by
  rw [scanned, if_pos (by simpa [isVisible] using h)]

theorem scanned_started (cursor : Option CStr) (includeUserTools : Bool) (tools : List (McpTool W)) :
    scanned cursor includeUserTools tools true = tools.filter (isVisible includeUserTools) := by
  induction tools with
  | nil => rfl
  | cons tool rest ih =>
    cases h : isVisible includeUserTools tool with
    | false => rw [scanned_hidden h, ih, List.filter_cons_of_neg (by simp [h])]
    | true =>
      rw [List.filter_cons_of_pos h, scanned, if_neg (isVisible_iff.mp h), if_neg (by simp), ih]

theorem listTools_named {includeUserTools : Bool} {tool : McpTool W}
    (h : isVisible includeUserTools tool = true) (rest : List (McpTool W)) :
    listTools L (some tool.name) includeUserTools (tool :: rest) { start := false } =
      listTools L (some tool.name) includeUserTools (tool :: rest) { start := true } := by
  have hvisible := isVisible_iff.mp h
  rw [listTools, if_neg hvisible, if_neg (by simp)]
  symm
  rw [listTools, if_neg hvisible, if_neg (by simp)]

theorem listTools_eq (hL : L.RoundTrips) (cursor : Option CStr) (includeUserTools : Bool)
    (tools : List (McpTool W)) (start : Bool) :
    ∃ started, listTools L cursor includeUserTools tools { start } =
      { endState (Paging.fill (admits L) [] (scanned cursor includeUserTools tools start)) with
        start := started } := by
  cases start with
  | true =>
    rw [scanned_started]
    exact ⟨true, listTools_started hL cursor includeUserTools tools []⟩
  | false =>
    induction tools with
    | nil => exact ⟨false, rfl⟩
    | cons tool rest ih =>
      cases h : isVisible includeUserTools tool with
      | false =>
        rw [listTools_hidden h, scanned_hidden h]
        exact ih
      | true =>
        have hvisible := isVisible_iff.mp h
        by_cases hname : cursor = some tool.name
        · subst hname
          have hscanned : scanned (some tool.name) includeUserTools (tool :: rest) false =
              (tool :: rest).filter (isVisible includeUserTools) := by
            rw [scanned, if_neg hvisible, if_neg (by simp), scanned_started,
              List.filter_cons_of_pos h]
          rw [listTools_named h, hscanned]
          exact ⟨true, listTools_started hL (some tool.name) includeUserTools (tool :: rest) []⟩
        · rw [listTools, scanned, if_neg hvisible, if_neg hvisible, if_pos (by simpa using hname),
            if_pos (by simpa using hname)]
          exact ih

theorem listTools_filter (cursor : Option CStr) (includeUserTools : Bool) (tools : List (McpTool W))
    {st : PageState W} (hst : st.start = true) :
    listTools L cursor includeUserTools tools st =
      listTools L none includeUserTools (tools.filter (isVisible includeUserTools)) st := by
  induction tools generalizing st with
  | nil => rfl
  | cons tool rest ih =>
    cases h : isVisible includeUserTools tool with
    | false => rw [listTools_hidden h, List.filter_cons_of_neg (by simp [h]), ih hst]
    | true =>
      have hvisible := isVisible_iff.mp h
      rw [List.filter_cons_of_pos h, listTools, if_neg hvisible, if_neg (by simp [hst])]
      conv_rhs => rw [listTools, if_neg hvisible, if_neg (by simp [hst])]
      dsimp only
      split
      · rfl
      · cases mcpToolToJson L tool with
        | none => exact ih rfl
        | some toolJson =>
          dsimp only
          split
          · rfl
          · cases L.parse toolJson with
            | none => exact ih rfl
            | some toolObject => exact ih rfl

theorem listTools_found {cursor : Option CStr} {includeUserTools : Bool} {tools : List (McpTool W)}
    {tool : McpTool W} {after : List (McpTool W)} {start : Bool}
    (h : scanned cursor includeUserTools tools start = tool :: after) :
    listTools L cursor includeUserTools tools { start } =
      listTools L none includeUserTools (tool :: after) { start := true } := by
  cases start with
  | true =>
    rw [← h, scanned_started]
    exact listTools_filter cursor includeUserTools tools rfl
  | false =>
    induction tools with
    | nil => exact absurd h.symm (List.cons_ne_nil tool after)
    | cons t rest ih =>
      cases hvisible : isVisible includeUserTools t with
      | false =>
        rw [scanned_hidden hvisible] at h
        rw [listTools_hidden hvisible, ih h]
      | true =>
        have hnot := isVisible_iff.mp hvisible
        by_cases hname : cursor = some t.name
        · subst hname
          rw [scanned, if_neg hnot, if_neg (by simp), scanned_started,
            ← List.filter_cons_of_pos hvisible] at h
          rw [listTools_named hvisible, ← h]
          exact listTools_filter _ _ _ rfl
        · rw [scanned, if_neg hnot, if_pos (by simpa using hname)] at h
          rw [listTools, if_neg hnot, if_pos (by simpa using hname), ih h]
theorem scanned_eq (cursor : Option CStr) (includeUserTools : Bool) (tools : List (McpTool W)) :
    scanned cursor includeUserTools tools (starts cursor) =
      Paging.resume (·.name) (sought cursor) (tools.filter (isVisible includeUserTools)) := by
  cases hsought : sought cursor with
  | none =>
    have hstarts : starts cursor = true := by
      cases cursor <;> simp_all [sought, starts]
    rw [hstarts, scanned_started]
    rfl
  | some name =>
    have hcursor : cursor = some name ∧ starts cursor = false := by
      cases cursor <;> simp_all [sought, starts]
    rw [hcursor.2, hcursor.1]
    induction tools with
    | nil => rfl
    | cons tool rest ih =>
      cases h : isVisible includeUserTools tool with
      | false => rw [scanned_hidden h, ih, List.filter_cons_of_neg (by simp [h])]
      | true =>
        have hvisible := isVisible_iff.mp h
        rw [List.filter_cons_of_pos h, scanned, if_neg hvisible]
        by_cases hname : tool.name = name
        · rw [if_neg (by simp [hname]), scanned_started]
          simp [Paging.resume, hname]
        · rw [if_pos (by simpa using Ne.symm hname), ih]
          simp [Paging.resume, hname]

/-! ## A page -/

def page (L : CJsonLib) (server : McpServer W) (cursor : Option CStr) (includeUserTools : Bool) :
    List (McpTool W) × List (McpTool W) :=
  Paging.fill (admits L) []
    (Paging.resume (·.name) (sought cursor) (visible server includeUserTools))

theorem page_suffix (server : McpServer W) (cursor : Option CStr) (includeUserTools : Bool) :
    (page L server cursor includeUserTools).1 ++ (page L server cursor includeUserTools).2 <:+
      visible server includeUserTools := by
  unfold page
  rw [Paging.fill_append, List.nil_append]
  exact Paging.resume_suffix _ _ _

theorem mem_page {server : McpServer W} {cursor : Option CStr} {includeUserTools : Bool}
    {tool : McpTool W} (h : tool ∈ (page L server cursor includeUserTools).1) :
    tool ∈ visible server includeUserTools :=
  (page_suffix server cursor includeUserTools).mem (List.mem_append_left _ h)

theorem finalPage_eq (hL : L.RoundTrips) (server : McpServer W) (cursor : Option CStr)
    (includeUserTools : Bool) : ∃ started, finalPage L server cursor includeUserTools =
      { endState (page L server cursor includeUserTools) with start := started } := by
  have h := listTools_eq hL cursor includeUserTools server.tools (starts cursor)
  rwa [scanned_eq] at h

def pageResult (L : CJsonLib) (server : McpServer W) (cursor : Option CStr)
    (includeUserTools : Bool) : CJson :=
  let filled := page L server cursor includeUserTools
  pageJson (filled.1.map McpTool.json) (cursorAt filled.2)

theorem buildToolsList_eq (hL : L.RoundTrips) (server : McpServer W) (cursor : Option CStr)
    (includeUserTools : Bool) : mcpServerBuildToolsList L server cursor includeUserTools =
      some (L.print (pageResult L server cursor includeUserTools)) := by
  obtain ⟨started, h⟩ := finalPage_eq hL server cursor includeUserTools
  unfold mcpServerBuildToolsList
  rw [h]
  rfl

theorem pageResult_plain (server : McpServer W) (cursor : Option CStr) (includeUserTools : Bool) :
    (pageResult L server cursor includeUserTools).Plain := by
  simp only [pageResult, pageJson]
  split_ifs <;> simp [McpTool.json_plain]

/-! ## The cursor -/

theorem listTools_stopped {cursor : Option CStr} {includeUserTools : Bool}
    {tools : List (McpTool W)} {st : PageState W} {tool : McpTool W} (hst : st.stopped = none)
    (h : (listTools L cursor includeUserTools tools st).stopped = some tool) :
    (listTools L cursor includeUserTools tools st).nextCursor = tool.name.strncpy 63 ∧
      tool ∈ tools.filter (isVisible includeUserTools) := by
  have hlater : ∀ (t : McpTool W) (rest : List (McpTool W)),
      tool ∈ rest.filter (isVisible includeUserTools) →
      tool ∈ (t :: rest).filter (isVisible includeUserTools) := by
    intro t rest hmem
    rw [List.mem_filter] at hmem ⊢
    exact ⟨List.mem_cons_of_mem t hmem.1, hmem.2⟩
  fun_induction listTools L cursor includeUserTools tools st with
  | case1 st => exact absurd (hst.symm.trans h) (Option.some_ne_none tool).symm
  | case2 _ _ _ _ ih => exact (ih hst h).imp_right (hlater _ _)
  | case3 _ _ _ _ _ ih => exact (ih hst h).imp_right (hlater _ _)
  | case4 t rest _ hvisible =>
    obtain rfl := Option.some.inj h
    exact ⟨rfl, List.mem_filter.mpr ⟨List.mem_cons_self, isVisible_iff.mpr hvisible⟩⟩
  | case5 _ _ _ _ _ _ _ _ ih => exact (ih hst h).imp_right (hlater _ _)
  | case6 t rest _ hvisible =>
    obtain rfl := Option.some.inj h
    exact ⟨rfl, List.mem_filter.mpr ⟨List.mem_cons_self, isVisible_iff.mpr hvisible⟩⟩
  | case7 _ _ _ _ _ _ _ _ _ _ _ ih => exact (ih hst h).imp_right (hlater _ _)
  | case8 _ _ _ _ _ _ _ _ _ _ _ _ ih => exact (ih hst h).imp_right (hlater _ _)

end MlinkDevice
