import Mathlib.Algebra.Order.BigOperators.Group.List
import MlinkDevice.Pages

/-!
# The size of a page

The loop estimates a tool by its name and description, and measures the printed text
only near the limit. Neither counts the commas between tools or the cursor.
-/

open MlinkDevice.CStr

namespace MlinkDevice

variable {W : Type} {L : CJsonLib}

/-! ## Lengths -/

def toolLength (L : CJsonLib) (tool : McpTool W) : ℕ := (L.print tool.json).strlen

/-- The length of a page without cursor: `{"tools":[]}`, the tools and the commas between them. -/
def pageLength (L : CJsonLib) (page : List (McpTool W)) : ℕ :=
  12 + (page.map (toolLength L)).sum + (page.length - 1)

def cursorLength (L : CJsonLib) (left : List (McpTool W)) : ℕ :=
  if (cursorAt left).first ≠ 0 then 14 + (L.print (.string (cursorAt left))).strlen else 0

theorem strlen_pageJson (hP : L.PrintsCompactly) (page left : List (McpTool W)) :
    (L.print (pageJson (page.map McpTool.json) (cursorAt left))).strlen =
      pageLength L page + cursorLength L left := by
  have htools : (L.print (.string (lit "tools"))).strlen = 7 := hP.strlen_string (by decide)
  have hcursor : (L.print (.string (lit "nextCursor"))).strlen = 12 := hP.strlen_string (by decide)
  have hmap : (page.map McpTool.json).map (fun v => (L.print v).strlen) = page.map (toolLength L) := by
    rw [List.map_map]
    rfl
  unfold pageJson cursorLength pageLength
  split_ifs
  · simp [hP.strlen_object, hP.strlen_array, htools, hcursor, hmap]
    omega
  · simp [hP.strlen_object, hP.strlen_array, htools, hmap]
    omega

theorem strlen_pageResult (hP : L.PrintsCompactly) (server : McpServer W) (cursor : Option CStr)
    (includeUserTools : Bool) : (L.print (pageResult L server cursor includeUserTools)).strlen =
      pageLength L (page L server cursor includeUserTools).1 +
        cursorLength L (page L server cursor includeUserTools).2 :=
  strlen_pageJson hP _ _

theorem strlen_pageText (hP : L.PrintsCompactly) (page : List (McpTool W)) :
    (pageText L page).strlen = pageLength L page :=
  strlen_pageJson hP page []

theorem pageLength_sublist {page tools : List (McpTool W)} (h : page.Sublist tools) :
    pageLength L page ≤ pageLength L tools := by
  have hsum := (h.map (toolLength L)).sum_le_sum fun _ _ => Nat.zero_le _
  have hlength := h.length_le
  unfold pageLength
  omega

theorem pageLength_append (page more : List (McpTool W)) :
    pageLength L page ≤ pageLength L (page ++ more) :=
  pageLength_sublist (List.sublist_append_left page more)

theorem estimate_append (page more : List (McpTool W)) :
    estimate page ≤ estimate (page ++ more) := by
  simp only [estimate, List.map_append, List.sum_append]
  omega

/-! ## Tools that fit alone -/

/-- The tool passes both size tests on an empty page. -/
def FitsAlone (L : CJsonLib) (tool : McpTool W) : Prop :=
  50 + tool.name.strlen + tool.description.strlen + 200 ≤ maxPayload ∧
    toolLength L tool + 12 ≤ maxPayload

theorem admits_iff (hP : L.PrintsCompactly) (page : List (McpTool W)) (tool : McpTool W) :
    admits L page tool = true ↔ estimate page + toolSizeEstimate tool ≤ maxPayload ∧
      (estimate page + toolLength L tool ≤ maxPayload * 9 / 10 ∨
        toolLength L tool + pageLength L page ≤ maxPayload) := by
  simp [admits, strlen_pageText hP, toolLength]

theorem admits_nil_iff (hP : L.PrintsCompactly) (tool : McpTool W) :
    admits L [] tool = true ↔ FitsAlone L tool := by
  rw [admits_iff hP, FitsAlone]
  simp only [estimate, pageLength, toolSizeEstimate, maxPayload, List.map_nil, List.sum_nil,
    List.length_nil]
  omega

theorem FitsAlone.of_admits (hP : L.PrintsCompactly) {page : List (McpTool W)} {tool : McpTool W}
    (h : admits L page tool = true) : FitsAlone L tool := by
  have hlength := pageLength_append (L := L) [] page
  have hestimate := estimate_append [] page
  rw [List.nil_append] at hlength hestimate
  rw [← admits_nil_iff hP, admits_iff hP]
  rw [admits_iff hP] at h
  omega

/-! ## Pages that stay within the limit -/

/-- What the size tests do not look at, as the loop comes to a tool: the length of the page
when the tool goes on it unmeasured, the comma when it is measured, and the cursor when the
loop stops. -/
def LeavesRoom (L : CJsonLib) (before : List (McpTool W)) (tool : McpTool W) : Prop :=
  if admits L before tool then
    if estimate before + toolLength L tool ≤ maxPayload * 9 / 10 then
      pageLength L (before ++ [tool]) ≤ maxPayload
    else before = [] ∨ toolLength L tool + pageLength L before ≠ maxPayload
  else pageLength L before + cursorLength L [tool] ≤ maxPayload

/-- Every tool that the loop comes to, going through these tools from an empty page, leaves
room. -/
def StaysWithin (L : CJsonLib) (tools : List (McpTool W)) : Prop :=
  ∀ before tool after, tools = before ++ tool :: after →
    (∀ b t a, before = b ++ t :: a → admits L b t = true) → LeavesRoom L before tool

theorem pageLength_concat (page : List (McpTool W)) (tool : McpTool W) :
    pageLength L (page ++ [tool]) =
      pageLength L page + toolLength L tool + if page = [] then 0 else 1 := by
  cases page with
  | nil => simp [pageLength]
  | cons t ts =>
    simp [pageLength]
    omega

theorem estimate_concat (page : List (McpTool W)) (tool : McpTool W) :
    estimate (page ++ [tool]) = estimate page + toolSizeEstimate tool := by
  simp only [estimate, List.map_append, List.map_singleton, List.sum_append, List.sum_singleton,
    Nat.add_assoc]

theorem leavesRoom_admitted (hP : L.PrintsCompactly) {before : List (McpTool W)} {tool : McpTool W}
    (h : admits L before tool = true) :
    LeavesRoom L before tool ↔ pageLength L (before ++ [tool]) ≤ maxPayload := by
  unfold LeavesRoom
  rw [if_pos h]
  split
  case isTrue => rfl
  case isFalse hmeasured =>
    have hlength := ((admits_iff hP before tool).mp h).2.resolve_left hmeasured
    rw [pageLength_concat]
    by_cases hbefore : before = []
    · simp only [hbefore, true_or, if_true, true_iff] at hlength ⊢
      omega
    · simp only [hbefore, false_or, if_false]
      omega

theorem leavesRoom_stopped {before : List (McpTool W)} {tool : McpTool W}
    (h : ¬admits L before tool = true) (after : List (McpTool W)) :
    LeavesRoom L before tool ↔
      pageLength L before + cursorLength L (tool :: after) ≤ maxPayload := by
  unfold LeavesRoom
  rw [if_neg h]
  rfl

theorem fill_within_iff (hP : L.PrintsCompactly) (tools : List (McpTool W)) :
    pageLength L (Paging.fill (admits L) [] tools).1 +
        cursorLength L (Paging.fill (admits L) [] tools).2 ≤ maxPayload ↔ StaysWithin L tools := by
  constructor
  · rintro hle before tool after rfl hbefore
    rw [Paging.fill_skip [] _ (by simpa using hbefore), List.nil_append, Paging.fill] at hle
    by_cases hadmits : admits L before tool = true
    · rw [if_pos hadmits] at hle
      obtain ⟨taken, htaken, -⟩ := Paging.fill_taken (admits L) (before ++ [tool]) after
      have := pageLength_append (L := L) (before ++ [tool]) taken
      rw [← htaken] at this
      rw [leavesRoom_admitted hP hadmits]
      omega
    · rw [if_neg hadmits] at hle
      exact (leavesRoom_stopped hadmits after).mpr hle
  · intro hwithin
    have hsplit := Paging.fill_append (admits L) [] tools
    have hadmitted : ∀ b t a, (Paging.fill (admits L) [] tools).1 = b ++ t :: a →
        admits L b t = true := fun _ _ _ => Paging.fill_admitted
    rw [List.nil_append] at hsplit
    cases hleft : (Paging.fill (admits L) [] tools).2 with
    | cons tool after =>
      have := hwithin _ tool after (by rw [← hleft, hsplit]) hadmitted
      have hstop := Bool.eq_false_iff.mp (Paging.fill_stop hleft)
      exact (leavesRoom_stopped hstop after).mp this
    | nil =>
      have hcursor : cursorLength L ([] : List (McpTool W)) = 0 := rfl
      rw [hleft, List.append_nil] at hsplit
      rw [hcursor]
      rcases List.eq_nil_or_concat' (Paging.fill (admits L) [] tools).1 with hnil | ⟨before, tool, hlast⟩
      · rw [hnil]
        simp [pageLength, maxPayload]
      · have := hwithin before tool [] (by rw [← hlast, hsplit])
          (fun b t a hb => hadmitted b t (a ++ [tool]) (by rw [hlast, hb]; simp))
        rwa [leavesRoom_admitted hP (hadmitted before tool [] hlast), ← hlast] at this

/-! ## Tools that stay within their estimates -/

/-- The text and the comma of the tool are within its estimate, and so is the text with what the
cursor of the other tool takes beyond the bytes that the first estimate has to spare. -/
structure Estimated (L : CJsonLib) (tool next : McpTool W) : Prop where
  comma : toolLength L tool + 1 ≤ toolSizeEstimate tool
  cursor : toolLength L tool + cursorLength L [next] ≤ toolSizeEstimate tool + 38

instance (L : CJsonLib) (tool next : McpTool W) : Decidable (Estimated L tool next) :=
  decidable_of_iff (toolLength L tool + 1 ≤ toolSizeEstimate tool ∧
    toolLength L tool + cursorLength L [next] ≤ toolSizeEstimate tool + 38)
    ⟨fun h => ⟨h.1, h.2⟩, fun h => ⟨h.comma, h.cursor⟩⟩

theorem cursorLength_le (hE : L.EscapesShortly) (left : List (McpTool W)) :
    cursorLength L left ≤ 394 := by
  have hname : (cursorAt left).strlen ≤ 63 := by
    cases left with
    | nil => exact Nat.zero_le 63
    | cons tool rest => exact (strlen_strncpy tool.name 63).trans_le (min_le_left _ _)
  have hprint := hE.strlen_string_le (cursorAt left)
  unfold cursorLength
  split <;> omega

theorem lengths_le_estimates {tools : List (McpTool W)}
    (h : ∀ tool ∈ tools, toolLength L tool + 1 ≤ toolSizeEstimate tool) :
    (tools.map (toolLength L)).sum + tools.length ≤ (tools.map toolSizeEstimate).sum := by
  induction tools with
  | nil => exact le_rfl
  | cons tool rest ih =>
    obtain ⟨htool, hrest⟩ := List.forall_mem_cons.mp h
    have hlengths := ih hrest
    simp only [List.map_cons, List.sum_cons, List.length_cons]
    omega

theorem pageLength_le_estimate {page : List (McpTool W)}
    (h : ∀ tool ∈ page, toolLength L tool + 1 ≤ toolSizeEstimate tool) :
    pageLength L page ≤ estimate page := by
  have hlengths := lengths_le_estimates h
  unfold pageLength estimate
  omega

theorem pageLength_cursor_le {first next : McpTool W} {rest : List (McpTool W)}
    (hfirst : Estimated L first next)
    (hrest : ∀ tool ∈ rest, toolLength L tool + 1 ≤ toolSizeEstimate tool) :
    pageLength L (first :: rest) + cursorLength L [next] ≤ estimate (first :: rest) := by
  have hlengths := lengths_le_estimates hrest
  have hcursor := hfirst.cursor
  unfold pageLength estimate
  rw [List.map_cons, List.map_cons, List.sum_cons, List.sum_cons, List.length_cons]
  omega

theorem estimate_le_of_admitted (hP : L.PrintsCompactly) {page : List (McpTool W)} (hpage : page ≠ [])
    (h : ∀ before tool after, page = before ++ tool :: after → admits L before tool = true) :
    estimate page ≤ maxPayload := by
  obtain ⟨before, tool, rfl⟩ := (List.eq_nil_or_concat' page).resolve_left hpage
  rw [estimate_concat]
  exact ((admits_iff hP before tool).mp (h before tool [] rfl)).1

theorem staysWithin_of_estimated (hP : L.PrintsCompactly) (hE : L.EscapesShortly)
    {tools : List (McpTool W)} (h : ∀ tool ∈ tools, ∀ next ∈ tools, Estimated L tool next) :
    StaysWithin L tools := by
  rintro before tool after rfl hbefore
  have htool : tool ∈ before ++ tool :: after := List.mem_append_right before List.mem_cons_self
  have hcommas : ∀ t ∈ before ++ [tool], toolLength L t + 1 ≤ toolSizeEstimate t := by
    intro t ht
    refine (h t ?_ tool htool).comma
    rw [List.append_cons]
    exact List.mem_append_left after ht
  by_cases hadmits : admits L before tool = true
  · rw [leavesRoom_admitted hP hadmits]
    have hestimate := ((admits_iff hP before tool).mp hadmits).1
    rw [← estimate_concat] at hestimate
    exact (pageLength_le_estimate hcommas).trans hestimate
  · rw [leavesRoom_stopped hadmits []]
    cases before with
    | nil =>
      have hcursor := cursorLength_le hE [tool]
      have hempty : pageLength L ([] : List (McpTool W)) = 12 := rfl
      rw [hempty, maxPayload]
      omega
    | cons first rest =>
      have hfirst := h first (List.mem_append_left _ List.mem_cons_self) tool htool
      have hrest : ∀ t ∈ rest, toolLength L t + 1 ≤ toolSizeEstimate t := fun t ht =>
        hcommas t (List.mem_append_left [tool] (List.mem_cons_of_mem first ht))
      have hroom := pageLength_cursor_le hfirst hrest
      exact hroom.trans (estimate_le_of_admitted hP (List.cons_ne_nil first rest) hbefore)

/-! ## Tools that fit together -/

/-- The tools, with a cursor to any of them, have room on one page. -/
def FitTogether (L : CJsonLib) (tools : List (McpTool W)) : Prop :=
  ∀ next ∈ tools, pageLength L tools + cursorLength L [next] ≤ maxPayload

theorem FitTogether.within {tools taken left : List (McpTool W)} (h : FitTogether L tools)
    (hsuffix : taken ++ left <:+ tools) :
    pageLength L taken + cursorLength L left ≤ maxPayload := by
  have hle : pageLength L taken ≤ pageLength L tools :=
    pageLength_sublist ((List.sublist_append_left taken left).trans hsuffix.sublist)
  cases left with
  | nil =>
    have hcursor : cursorLength L ([] : List (McpTool W)) = 0 := rfl
    rw [List.append_nil] at hsuffix
    cases taken with
    | nil =>
      have hempty : pageLength L ([] : List (McpTool W)) = 12 := rfl
      rw [hempty, hcursor, maxPayload]
      omega
    | cons tool rest =>
      have hroom := h tool (hsuffix.mem List.mem_cons_self)
      omega
  | cons next rest =>
    have hcursor : cursorLength L (next :: rest) = cursorLength L [next] := rfl
    have hroom := h next (hsuffix.mem (List.mem_append_right taken List.mem_cons_self))
    omega

/-! ## Tools with long texts -/

def worded (name description default : CStr) : McpTool Unit where
  name
  description
  properties := (mcpPropertyListAddString [] (some (lit "p")) (some default)).2
  callback := none
  userOnly := false

def wordy (name : CStr) : McpTool Unit := worded name ∅ (letters 3000)

def wordyTools : List (McpTool Unit) := [wordy (lit "a"), wordy (lit "b"), wordy (lit "c")]

def wordyServer : McpServer Unit := (addTools (mcpServerInit none) wordyTools).2

theorem wordyServer_reachable : Reachable wordyServer := ⟨none, wordyTools, rfl⟩

theorem wordyServer_tools : wordyServer.tools = wordyTools :=
  addTools_of_nodup (init_inStep none) (by decide)

theorem letters_plain (n : ℕ) : Json.IsPlain (letters n) := by
  intro b hb
  obtain ⟨-, rfl⟩ := List.mem_replicate.mp hb
  decide

theorem toolLength_worded (hP : L.PrintsCompactly) {name description default : CStr}
    (hname : Json.IsPlain name) (hdescription : Json.IsPlain description)
    (hdefault : Json.IsPlain default) : toolLength L (worded name description default) =
      name.strlen + description.strlen + default.strlen + 110 := by
  have hlit : ∀ s : CStr, Json.IsPlain s →
      (L.print (.string s)).strlen = s.strlen + 2 := fun s => hP.strlen_string
  have hjson : (worded name description default).json = .object [
      (lit "name", .string name), (lit "description", .string description),
      (lit "inputSchema", .object [
        (lit "type", .string (lit "object")),
        (lit "properties", .object [(lit "p", .object [
          (lit "type", .string (lit "string")), (lit "default", .string default)])])])] := rfl
  have hlengths : (lit "name").strlen = 4 ∧ (lit "description").strlen = 11 ∧
      (lit "inputSchema").strlen = 11 ∧ (lit "type").strlen = 4 ∧ (lit "object").strlen = 6 ∧
      (lit "properties").strlen = 10 ∧ (lit "p").strlen = 1 ∧ (lit "string").strlen = 6 ∧
      (lit "default").strlen = 7 := by decide
  unfold toolLength
  rw [hjson]
  simp only [hP.strlen_object, List.map_cons, List.map_nil, List.sum_cons, List.sum_nil,
    List.length_cons, List.length_nil, hlit name hname, hlit _ hdescription, hlit _ hdefault]
  simp (disch := decide) only [hlit, hlengths]
  omega

theorem toolLength_wordy (hP : L.PrintsCompactly) (name : CStr) (hname : name.strlen = 1)
    (hplain : Json.IsPlain name) : toolLength L (wordy name) = 3111 := by
  rw [wordy, toolLength_worded hP hplain (by decide) (letters_plain 3000), hname, strlen_letters]
  decide

theorem pageLength_wordyTools (hP : L.PrintsCompactly) : pageLength L wordyTools = 9347 := by
  have htool := toolLength_wordy hP
  simp only [pageLength, wordyTools, List.map_cons, List.map_nil, List.sum_cons, List.sum_nil,
    List.length_cons, List.length_nil, htool (lit "a") rfl (by decide),
    htool (lit "b") rfl (by decide), htool (lit "c") rfl (by decide)]
  decide

theorem wordy_page (hP : L.PrintsCompactly) : page L wordyServer none false = (wordyTools, []) := by
  have hlength : ∀ name ∈ [lit "a", lit "b", lit "c"], toolLength L (wordy name) = 3111 := by
    intro name hname
    simp only [List.mem_cons, List.not_mem_nil, or_false] at hname
    rcases hname with rfl | rfl | rfl <;> exact toolLength_wordy hP _ (by decide) (by decide)
  have hestimate : ∀ name ∈ [lit "a", lit "b", lit "c"], toolSizeEstimate (wordy name) = 201 := by
    decide
  have hadmits : ∀ page : List (McpTool Unit), estimate page ≤ 452 →
      ∀ name ∈ [lit "a", lit "b", lit "c"], admits L page (wordy name) = true := by
    intro page hpage name hname
    rw [admits_iff hP, hlength name hname, hestimate name hname]
    simp only [maxPayload]
    omega
  have hvisible : visible wordyServer false = wordyTools := by
    unfold visible
    rw [wordyServer_tools]
    rfl
  rw [page, hvisible, show sought none = none from rfl, Paging.resume, wordyTools, Paging.fill,
    if_pos (hadmits _ (by decide) _ (by simp)), Paging.fill,
    if_pos (hadmits _ (by decide) _ (by simp)), Paging.fill,
    if_pos (hadmits _ (by decide) _ (by simp))]
  rfl

/-! ## Three tools on two pages -/

def lengthy (name : CStr) : McpTool Unit := worded name (letters 3000) (lit "x")

def lengthyTools : List (McpTool Unit) := [lengthy (lit "a"), lengthy (lit "b"), lengthy (lit "c")]

def lengthyServer : McpServer Unit := (addTools (mcpServerInit none) lengthyTools).2

theorem lengthyServer_reachable : Reachable lengthyServer := ⟨none, lengthyTools, rfl⟩

theorem lengthyServer_tools : lengthyServer.tools = lengthyTools :=
  addTools_of_nodup (init_inStep none) (by decide)

theorem lengthyServer_visible (includeUserTools : Bool) :
    visible lengthyServer includeUserTools = lengthyTools := by
  unfold visible
  rw [lengthyServer_tools]
  cases includeUserTools <;> rfl

theorem toolLength_lengthy (hP : L.PrintsCompactly) {name : CStr} (hname : name.strlen = 1)
    (hplain : Json.IsPlain name) : toolLength L (lengthy name) = 3112 := by
  rw [lengthy, toolLength_worded hP hplain (letters_plain 3000) (by decide), hname, strlen_letters]
  rfl

theorem estimate_lengthy {name : CStr} (hname : name.strlen = 1) :
    toolSizeEstimate (lengthy name) = 3201 := by
  simp only [toolSizeEstimate, lengthy, worded, hname, strlen_letters]

theorem lengthy_fits (hP : L.PrintsCompactly) {name : CStr} (hname : name.strlen = 1)
    (hplain : Json.IsPlain name) : FitsAlone L (lengthy name) := by
  have hestimate := estimate_lengthy hname
  unfold toolSizeEstimate at hestimate
  rw [FitsAlone, toolLength_lengthy hP hname hplain, maxPayload]
  omega

theorem estimate_concat_lengthy (page : List (McpTool Unit)) {name : CStr} (hname : name.strlen = 1) :
    estimate (page ++ [lengthy name]) = estimate page + 3201 := by
  rw [estimate_concat, estimate_lengthy hname]

theorem lengthy_page (hP : L.PrintsCompactly) (includeUserTools : Bool) :
    page L lengthyServer none includeUserTools =
      ([lengthy (lit "a"), lengthy (lit "b")], [lengthy (lit "c")]) := by
  have hone : estimate ([] ++ [lengthy (lit "a")]) = 3251 := estimate_concat_lengthy [] rfl
  have htwo : estimate ([] ++ [lengthy (lit "a")] ++ [lengthy (lit "b")]) = 6452 := by
    rw [estimate_concat_lengthy _ rfl, hone]
  have hfirst : admits L [] (lengthy (lit "a")) = true :=
    (admits_nil_iff hP _).mpr (lengthy_fits hP rfl (by decide))
  have hsecond : admits L ([] ++ [lengthy (lit "a")]) (lengthy (lit "b")) = true := by
    rw [admits_iff hP, hone, estimate_lengthy rfl, toolLength_lengthy hP rfl (by decide), maxPayload]
    omega
  have hthird : ¬admits L ([] ++ [lengthy (lit "a")] ++ [lengthy (lit "b")]) (lengthy (lit "c")) =
      true := by
    rw [admits_iff hP, htwo, estimate_lengthy rfl, maxPayload]
    omega
  rw [page, lengthyServer_visible, show sought none = none from rfl, Paging.resume, lengthyTools,
    Paging.fill, if_pos hfirst, Paging.fill, if_pos hsecond, Paging.fill, if_neg hthird]
  rfl

theorem lengthy_lastPage (hP : L.PrintsCompactly) (includeUserTools : Bool) :
    page L lengthyServer (some (lit "c")) includeUserTools = ([lengthy (lit "c")], []) := by
  have hresume : Paging.resume (·.name) (some (lit "c")) lengthyTools = [lengthy (lit "c")] := rfl
  have hadmits : admits L [] (lengthy (lit "c")) = true :=
    (admits_nil_iff hP _).mpr (lengthy_fits hP rfl (by decide))
  rw [page, lengthyServer_visible, show sought (some (lit "c")) = some (lit "c") from rfl, hresume,
    Paging.fill, if_pos hadmits]
  rfl

theorem lengthy_estimated (hP : L.PrintsCompactly) {name next : CStr} (hname : name.strlen = 1)
    (hplain : Json.IsPlain name) (hnext : next.strlen = 1) (hnextPlain : Json.IsPlain next) :
    Estimated L (lengthy name) (lengthy next) := by
  have hcursor : cursorLength L [lengthy next] ≤ 17 := by
    have hself : cursorAt [lengthy next] = next := strncpy_of_le (show next.strlen ≤ 63 by omega)
    have hprint := hP.strlen_string hnextPlain
    unfold cursorLength
    rw [hself]
    split <;> omega
  constructor
  · rw [toolLength_lengthy hP hname hplain, estimate_lengthy hname]
    omega
  · rw [toolLength_lengthy hP hname hplain, estimate_lengthy hname]
    omega

theorem lengthyServer_estimated (hP : L.PrintsCompactly) (includeUserTools : Bool) :
    ∀ tool ∈ visible lengthyServer includeUserTools, ∀ next ∈ visible lengthyServer includeUserTools,
      Estimated L tool next := by
  rw [lengthyServer_visible]
  simp only [lengthyTools, List.forall_mem_cons, List.not_mem_nil, false_imp_iff, implies_true,
    and_true]
  refine ⟨⟨?_, ?_, ?_⟩, ⟨?_, ?_, ?_⟩, ⟨?_, ?_, ?_⟩⟩ <;>
    exact lengthy_estimated hP rfl (by decide) rfl (by decide)

example : Estimated CJsonLib.reference (worded (lit "a") ∅ (lit "x")) (worded (lit "b") ∅ ∅) := by
  decide +kernel

/-! ## The limit -/

theorem strlen_pageResult_le (hP : L.PrintsCompactly) (hE : L.EscapesShortly) {server : McpServer W}
    {includeUserTools : Bool}
    (h : (∀ tool ∈ visible server includeUserTools, ∀ next ∈ visible server includeUserTools,
      Estimated L tool next) ∨ FitTogether L (visible server includeUserTools))
    (cursor : Option CStr) :
    (L.print (pageResult L server cursor includeUserTools)).strlen ≤ maxPayload := by
  rw [strlen_pageResult hP]
  rcases h with hestimated | htogether
  · have hsuffix := Paging.resume_suffix (·.name) (sought cursor) (visible server includeUserTools)
    refine (fill_within_iff hP _).mpr (staysWithin_of_estimated hP hE fun tool htool next hnext => ?_)
    exact hestimated tool (hsuffix.mem htool) next (hsuffix.mem hnext)
  · exact htogether.within (page_suffix server cursor includeUserTools)

end MlinkDevice
