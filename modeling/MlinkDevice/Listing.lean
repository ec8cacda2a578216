import MlinkDevice.Cursor
import MlinkDevice.Dispatch
import MlinkDevice.PageSize

/-!
# Listing the tools

A client asks for a page, reads the reply, and asks again with the `nextCursor` it got.
Tools may be registered between two requests.
-/

open MlinkDevice.CStr

namespace MlinkDevice

variable {W : Type} {L : CJsonLib}

/-! ## The client -/

def listParams (includeUserTools : Bool) (cursor : Option CStr) : CJson :=
  .object ((cursor.map fun cursor => (lit "cursor", CJson.string cursor)).toList ++
    [(lit "withUserTools", .bool includeUserTools)])

def listRequest (id : Int32) (includeUserTools : Bool) (cursor : Option CStr) : CJson :=
  requestJson id (lit "tools/list") (listParams includeUserTools cursor)

structure ToolsPage where
  tools : List CJson
  nextCursor : Option CStr

def readPage (reply : CJson) : Option ToolsPage :=
  match reply.member (lit "result") with
  | none => none
  | some result =>
    match result.member (lit "tools"), result.member (lit "nextCursor") with
    | some (.array tools), some (.string cursor) => some { tools, nextCursor := some cursor }
    | some (.array tools), none => some { tools, nextCursor := none }
    | _, _ => none

/-- The page that a client reads in the one reply to its request. -/
def askPage (L : CJsonLib) (server : McpServer W) (id : Int32) (includeUserTools : Bool)
    (cursor : Option CStr) (w : W) : Option ToolsPage :=
  let request := L.print (listRequest id includeUserTools cursor)
  match payloads (mcpServerParseMessage L server request w).1 with
  | [payload] => (L.parse payload).bind readPage
  | _ => none

/-- Page `n` of a client that starts without cursor. `servers n` is the server as it asks. -/
def pageAt (L : CJsonLib) (servers : ℕ → McpServer W) (ids : ℕ → Int32) (includeUserTools : Bool)
    (w : W) : ℕ → Option ToolsPage
  | 0 => askPage L (servers 0) (ids 0) includeUserTools none w
  | n + 1 => (pageAt L servers ids includeUserTools w n).bind fun page =>
    askPage L (servers (n + 1)) (ids (n + 1)) includeUserTools page.nextCursor w

def serverAfter (server : McpServer W) (batches : List (List (McpTool W))) (n : ℕ) : McpServer W :=
  (addTools server (batches.take n).flatten).2

/-! ## One request -/

def toolsPage (filled : List (McpTool W) × List (McpTool W)) : ToolsPage where
  tools := filled.1.map McpTool.json
  nextCursor := if (cursorAt filled.2).first ≠ 0 then some (cursorAt filled.2) else none

theorem listParams_plain (includeUserTools : Bool) (cursor : Option CStr) :
    (listParams includeUserTools cursor).Plain := by
  cases cursor <;> simp [listParams]

theorem listParams_read (includeUserTools : Bool) (cursor : Option CStr) :
    cursorOf (some (listParams includeUserTools cursor)) = cursor ∧
      includeUserToolsOf (some (listParams includeUserTools cursor)) = includeUserTools := by
  cases cursor <;> exact ⟨rfl, rfl⟩

theorem readPage_reply (id : Int32) (filled : List (McpTool W) × List (McpTool W)) :
    readPage (resultReply id (pageJson (filled.1.map McpTool.json) (cursorAt filled.2))) =
      some (toolsPage filled) := by
  have hresult : ∀ result, (resultReply id result).member (lit "result") = some result :=
    fun _ => rfl
  have htools : ∀ tools cursor, (pageJson tools cursor).member (lit "tools") = some (.array tools) :=
    fun _ _ => rfl
  unfold readPage
  rw [hresult]
  simp only [htools, pageJson_nextCursor, toolsPage]
  split_ifs <;> rfl

theorem parseMessage_list (hL : L.RoundTrips) (server : McpServer W) (id : Int32)
    (includeUserTools : Bool) (cursor : Option CStr) (w : W) :
    mcpServerParseMessage L server (L.print (listRequest id includeUserTools cursor)) w =
      ([.send (L.print (resultReply id (pageResult L server cursor includeUserTools)))], w) := by
  have hplain := pageResult_plain (L := L) server cursor includeUserTools
  obtain ⟨hcursor, huser⟩ := listParams_read includeUserTools cursor
  rw [parseMessage_eq, listRequest, requestOf_requestJson hL id _ (listParams_plain _ _)]
  simp only [dispatch, if_neg (show ¬lit "tools/list" = lit "initialize" by decide), if_true]
  rw [hcursor, huser, buildToolsList_eq hL]
  dsimp only
  rw [replyResult_eq hL id hplain]

theorem askPage_eq (hL : L.RoundTrips) (server : McpServer W) (id : Int32) (includeUserTools : Bool)
    (cursor : Option CStr) (w : W) : askPage L server id includeUserTools cursor w =
      some (toolsPage (page L server cursor includeUserTools)) := by
  have hplain := pageResult_plain (L := L) server cursor includeUserTools
  have hpayloads : ∀ payload, payloads [(.send payload : Event W)] = [payload] := fun _ => rfl
  unfold askPage
  simp only [parseMessage_list hL, hpayloads, hL.parse_print _ (resultReply_plain hplain),
    Option.bind_some]
  exact readPage_reply id _

/-! ## Page after page -/

def CursorName (tool : McpTool W) : Prop := 1 ≤ tool.name.strlen ∧ tool.name.strlen ≤ 63

theorem toolsPage_nextCursor {filled : List (McpTool W) × List (McpTool W)}
    (h : ∀ tool ∈ filled.2, CursorName tool) :
    (toolsPage filled).nextCursor = filled.2.head?.map (·.name) ∧
      sought (filled.2.head?.map (·.name)) = filled.2.head?.map (·.name) := by
  obtain ⟨taken, left⟩ := filled
  cases left with
  | nil => exact ⟨rfl, rfl⟩
  | cons tool rest =>
    obtain ⟨hpos, hle⟩ := h tool List.mem_cons_self
    have hfirst : tool.name.first ≠ 0 := by
      rw [Ne, first_eq_zero, ← strlen_eq_zero]
      omega
    have hcursor : cursorAt (tool :: rest) = tool.name := strncpy_of_le hle
    refine ⟨?_, sought_some hfirst⟩
    unfold toolsPage
    simp only [hcursor, if_pos hfirst, List.head?_cons, Option.map_some]

def readTools (L : CJsonLib) (servers : ℕ → McpServer W) (includeUserTools : Bool) (n : ℕ) :
    List (McpTool W) × List (McpTool W) :=
  Paging.read (admits L) (·.name) (fun n => visible (servers n) includeUserTools) n

theorem pageAt_eq (hL : L.RoundTrips) {servers : ℕ → McpServer W} (ids : ℕ → Int32)
    {includeUserTools : Bool} (w : W)
    (hnames : ∀ n, ∀ tool ∈ visible (servers n) includeUserTools, CursorName tool) (n : ℕ) :
    pageAt L servers ids includeUserTools w n =
      some (toolsPage (readTools L servers includeUserTools n)) := by
  induction n with
  | zero => exact askPage_eq hL _ _ _ _ _
  | succ n ih =>
    have hleft : ∀ tool ∈ (readTools L servers includeUserTools n).2, CursorName tool :=
      fun tool htool => hnames n tool (Paging.mem_of_mem_left htool)
    obtain ⟨hnext, hsought⟩ := toolsPage_nextCursor hleft
    rw [pageAt, ih, Option.bind_some, askPage_eq hL, hnext, page, hsought]
    rfl

theorem nextCursor_eq_none {servers : ℕ → McpServer W} {includeUserTools : Bool}
    (hnames : ∀ n, ∀ tool ∈ visible (servers n) includeUserTools, CursorName tool) (n : ℕ) :
    (toolsPage (readTools L servers includeUserTools n)).nextCursor = none ↔
      (readTools L servers includeUserTools n).2 = [] := by
  have hleft : ∀ tool ∈ (readTools L servers includeUserTools n).2, CursorName tool :=
    fun tool htool => hnames n tool (Paging.mem_of_mem_left htool)
  rw [(toolsPage_nextCursor hleft).1]
  simp

theorem visible_growing {server : McpServer W} (hs : server.InStep)
    (batches : List (List (McpTool W))) (includeUserTools : Bool) :
    Paging.Growing (·.name) fun n => visible (serverAfter server batches n) includeUserTools where
  prefix_succ n := by
    have hflatten : (batches.take (n + 1)).flatten =
        (batches.take n).flatten ++ (batches[n]?.toList).flatten := by
      rw [List.take_add_one, List.flatten_append]
    unfold visible serverAfter
    rw [hflatten, addTools_append]
    exact (prefix_addTools _ _).filter _
  nodup n := (addTools_inStep hs _).names_nodup.sublist (List.filter_sublist.map _)

theorem serverAfter_mem {server : McpServer W} {batches : List (List (McpTool W))}
    {includeUserTools : Bool} {n : ℕ} {tool : McpTool W}
    (h : tool ∈ visible (serverAfter server batches n) includeUserTools) :
    tool ∈ server.tools ++ batches.flatten := by
  have hmem := addTools_mem (List.mem_of_mem_filter h)
  rw [List.mem_append] at hmem ⊢
  refine hmem.imp_right fun hmem => ?_
  obtain ⟨batch, hbatch, htool⟩ := List.mem_flatten.mp hmem
  exact List.mem_flatten.mpr ⟨batch, List.mem_of_mem_take hbatch, htool⟩

theorem serverAfter_length (server : McpServer W) (batches : List (List (McpTool W)))
    (includeUserTools : Bool) (n : ℕ) :
    (visible (serverAfter server batches n) includeUserTools).length ≤
      server.tools.length + batches.flatten.length := by
  have hfilter : (visible (serverAfter server batches n) includeUserTools).length ≤
      (serverAfter server batches n).tools.length := List.length_filter_le _ _
  have hadded := addTools_length server (batches.take n).flatten
  have htake : (batches.take n).flatten.length ≤ batches.flatten.length :=
    ((List.take_sublist n batches).flatten).length_le
  unfold serverAfter at *
  omega

/-! ## A complete listing -/

/-- Whatever is registered between the requests, a client that follows `nextCursor` comes to
a last page, and has then read exactly the tools that are visible in the end, in order. -/
theorem listing_complete (hL : L.RoundTrips) (hP : L.PrintsCompactly) {server : McpServer W}
    (hs : Reachable server) (batches : List (List (McpTool W))) (ids : ℕ → Int32)
    (includeUserTools : Bool) (w : W)
    (hnames : ∀ tool ∈ server.tools ++ batches.flatten, CursorName tool)
    (hfits : ∀ tool ∈ server.tools ++ batches.flatten, FitsAlone L tool) :
    let servers := serverAfter server batches
    ∃ (n : ℕ) (pages : ℕ → ToolsPage),
      (∀ i, pageAt L servers ids includeUserTools w i = some (pages i)) ∧
      (∀ i < n, (pages i).nextCursor ≠ none) ∧ (pages n).nextCursor = none ∧
      n + 1 ≤ (visible (servers n) includeUserTools).length + 1 ∧
      ((List.range (n + 1)).flatMap fun i => (pages i).tools) =
        (visible (servers n) includeUserTools).map McpTool.json := by
  intro servers
  have hgrowing := visible_growing hs.inStep batches includeUserTools
  have hcursor : ∀ n, ∀ tool ∈ visible (servers n) includeUserTools, CursorName tool :=
    fun n tool htool => hnames tool (serverAfter_mem htool)
  have hadmits : ∀ n, ∀ tool ∈ visible (servers n) includeUserTools, admits L [] tool = true :=
    fun n tool htool => (admits_nil_iff hP tool).mpr (hfits tool (serverAfter_mem htool))
  obtain ⟨n, hstop⟩ := Paging.exists_stopsAt hgrowing hadmits
    (serverAfter_length server batches includeUserTools)
  refine ⟨n, fun i => toolsPage (readTools L servers includeUserTools i), pageAt_eq hL ids w hcursor,
    fun i hi => ?_, ?_, ?_, ?_⟩
  · rw [Ne, nextCursor_eq_none hcursor]
    exact hstop.1 i hi
  · rw [nextCursor_eq_none hcursor]
    exact hstop.2
  · exact Nat.succ_le_succ (hstop.le_length hgrowing hadmits)
  · rw [← hstop.listed hgrowing, Paging.listed, List.map_flatMap]
    rfl

theorem lengthy_listable {tool : McpTool Unit}
    (h : tool ∈ lengthyTools ++ [lengthy (lit "d")]) :
    CursorName tool ∧ FitsAlone CJsonLib.reference tool := by
  have hfits : ∀ name : CStr, name.strlen = 1 → Json.IsPlain name →
      CursorName (lengthy name) ∧ FitsAlone CJsonLib.reference (lengthy name) :=
    fun name hname hplain => ⟨⟨hname.ge, hname.trans_le (by decide)⟩,
      lengthy_fits CJsonLib.reference_printsCompactly hname hplain⟩
  simp only [lengthyTools, List.cons_append, List.nil_append, List.mem_cons, List.not_mem_nil,
    or_false] at h
  rcases h with rfl | rfl | rfl | rfl <;> exact hfits _ rfl (by decide)

theorem lengthy_nextCursor (includeUserTools : Bool) :
    (toolsPage (page CJsonLib.reference lengthyServer none includeUserTools)).nextCursor =
      some (lit "c") := by
  rw [lengthy_page CJsonLib.reference_printsCompactly]
  rfl

theorem lengthy_registered {n : ℕ} (hn : n ≠ 0) :
    visible (serverAfter lengthyServer [[lengthy (lit "d")]] n) false =
      lengthyTools ++ [lengthy (lit "d")] := by
  have hall : [[lengthy (lit "d")]].take n = [[lengthy (lit "d")]] :=
    List.take_of_length_le (Nat.one_le_iff_ne_zero.mpr hn)
  have htools : (addTools lengthyServer [lengthy (lit "d")]).2.tools =
      lengthyServer.tools ++ [lengthy (lit "d")] :=
    addTools_of_nodup lengthyServer_reachable.inStep (by rw [lengthyServer_tools]; decide)
  rw [visible, serverAfter, hall, List.flatten_singleton, htools, lengthyServer_tools]
  rfl

/-- Three tools on two pages, and a fourth that is registered after the first of them. -/
theorem listing_complete_lengthy : ∃ (n : ℕ) (pages : ℕ → ToolsPage), 1 ≤ n ∧
    (∀ i, pageAt CJsonLib.reference (serverAfter lengthyServer [[lengthy (lit "d")]]) (fun _ => 1)
      false () i = some (pages i)) ∧
    (pages n).nextCursor = none ∧
    ((List.range (n + 1)).flatMap fun i => (pages i).tools) =
      (lengthyTools ++ [lengthy (lit "d")]).map McpTool.json := by
  have hlistable : ∀ tool ∈ lengthyServer.tools ++ [[lengthy (lit "d")]].flatten,
      CursorName tool ∧ FitsAlone CJsonLib.reference tool := by
    rw [lengthyServer_tools]
    exact fun tool htool => lengthy_listable htool
  obtain ⟨n, pages, hpages, -, hlast, -, hlisted⟩ := listing_complete CJsonLib.reference_roundTrips
    CJsonLib.reference_printsCompactly lengthyServer_reachable [[lengthy (lit "d")]] (fun _ => 1)
    false () (fun tool htool => (hlistable tool htool).1) (fun tool htool => (hlistable tool htool).2)
  have hn : n ≠ 0 := by
    rintro rfl
    have hfirst := hpages 0
    rw [pageAt, askPage_eq CJsonLib.reference_roundTrips] at hfirst
    rw [← Option.some.inj hfirst] at hlast
    exact absurd ((lengthy_nextCursor false).symm.trans hlast) (Option.some_ne_none _)
  rw [lengthy_registered hn] at hlisted
  exact ⟨n, pages, Nat.one_le_iff_ne_zero.mpr hn, hpages, hlast, hlisted⟩

/-! ## Progress -/

/-- A client that follows `nextCursor` gets a tool with every page that has one, and comes
to a page that has none. -/
def Progresses (L : CJsonLib) (server : McpServer W) (ids : ℕ → Int32) (includeUserTools : Bool)
    (w : W) : Prop :=
  (∀ n page, pageAt L (fun _ => server) ids includeUserTools w n = some page →
    page.nextCursor ≠ none → page.tools ≠ []) ∧
  ∃ n page, pageAt L (fun _ => server) ids includeUserTools w n = some page ∧
    page.nextCursor = none

/-- A listing progresses exactly when every visible tool fits on a page of its own. -/
theorem progresses_iff (hL : L.RoundTrips) (hP : L.PrintsCompactly) {server : McpServer W}
    (hnodup : (server.tools.map (·.name)).Nodup) (ids : ℕ → Int32) (includeUserTools : Bool) (w : W)
    (hnames : ∀ tool ∈ server.tools, CursorName tool) :
    Progresses L server ids includeUserTools w ↔
      ∀ tool ∈ visible server includeUserTools, FitsAlone L tool := by
  have hcursor : ∀ _ : ℕ, ∀ tool ∈ visible server includeUserTools, CursorName tool :=
    fun _ tool htool => hnames tool (List.mem_of_mem_filter htool)
  have hpages := pageAt_eq hL ids w hcursor
  have hgrowing : Paging.Growing (·.name) fun _ : ℕ => visible server includeUserTools :=
    ⟨fun _ => List.prefix_rfl, fun _ => hnodup.sublist (List.filter_sublist.map _)⟩
  constructor
  · rintro ⟨-, n, page, hpage, hlast⟩ tool htool
    rw [hpages n] at hpage
    obtain rfl := Option.some.inj hpage
    obtain ⟨m, hstop⟩ := Paging.exists_first ⟨n, (nextCursor_eq_none hcursor n).mp hlast⟩
    obtain ⟨page, hadmits⟩ := hstop.admitted hgrowing htool
    exact FitsAlone.of_admits hP hadmits
  · intro hfits
    have hadmits : ∀ _ : ℕ, ∀ tool ∈ visible server includeUserTools, admits L [] tool = true :=
      fun _ tool htool => (admits_nil_iff hP tool).mpr (hfits tool htool)
    refine ⟨fun n page hpage hnext => ?_, ?_⟩
    · rw [hpages n] at hpage
      obtain rfl := Option.some.inj hpage
      rw [Ne, nextCursor_eq_none hcursor] at hnext
      have := Paging.read_ne_nil n (hadmits n) hnext
      unfold toolsPage
      rw [Ne, List.map_eq_nil_iff]
      exact this
    · obtain ⟨n, hstop⟩ := Paging.exists_stopsAt hgrowing hadmits fun _ => le_refl _
      exact ⟨n, _, hpages n, (nextCursor_eq_none hcursor n).mpr hstop.2⟩

theorem progresses_iff_lengthy :
    Progresses CJsonLib.reference lengthyServer (fun _ => 1) false () := by
  have hlistable : ∀ tool ∈ lengthyServer.tools, CursorName tool ∧ FitsAlone CJsonLib.reference tool := by
    rw [lengthyServer_tools]
    exact fun tool htool => lengthy_listable (List.mem_append_left _ htool)
  refine (progresses_iff CJsonLib.reference_roundTrips CJsonLib.reference_printsCompactly
    lengthyServer_reachable.inStep.names_nodup (fun _ => 1) false ()
    fun tool htool => (hlistable tool htool).1).mpr fun tool htool => ?_
  exact (hlistable tool (List.mem_of_mem_filter htool)).2

theorem oversized_page {cursor : Option CStr} (h : cursor = none ∨ cursor = some (lit "big")) :
    page L (oversizedServer (lit "big")) cursor false = ([], [oversized (lit "big")]) := by
  have hresume : Paging.resume (·.name) (sought cursor) (visible (oversizedServer (lit "big")) false) =
      [oversized (lit "big")] := by
    rcases h with rfl | rfl <;> rfl
  have hadmits : admits L [] (oversized (lit "big")) = false := by
    unfold admits
    rw [Bool.and_eq_false_iff]
    refine .inl (decide_eq_false ?_)
    simp only [estimate, toolSizeEstimate, oversized, strlen_letters, maxPayload]
    omega
  unfold page
  rw [hresume, Paging.fill, if_neg (by simp [hadmits])]

theorem oversized_never_listed :
    Reachable (oversizedServer (lit "big")) ∧
    (∀ tool ∈ (oversizedServer (lit "big")).tools, CursorName tool) ∧
    (∀ n, pageAt CJsonLib.reference (fun _ => oversizedServer (lit "big")) (fun _ => 1) false () n =
      some { tools := [], nextCursor := some (lit "big") }) ∧
    ¬Progresses CJsonLib.reference (oversizedServer (lit "big")) (fun _ => 1) false () := by
  have hpage : ∀ n, pageAt CJsonLib.reference (fun _ => oversizedServer (lit "big")) (fun _ => 1)
      false () n = some { tools := [], nextCursor := some (lit "big") } := by
    intro n
    induction n with
    | zero =>
      rw [pageAt, askPage_eq CJsonLib.reference_roundTrips, oversized_page (.inl rfl)]
      rfl
    | succ n ih =>
      rw [pageAt, ih, Option.bind_some, askPage_eq CJsonLib.reference_roundTrips,
        oversized_page (.inr rfl)]
      rfl
  refine ⟨oversizedServer_reachable _, ?_, hpage, fun hprogress => ?_⟩
  · intro tool htool
    obtain rfl := List.mem_singleton.mp htool
    exact ⟨by decide, by decide⟩
  · exact hprogress.1 0 _ (hpage 0) (Option.some_ne_none _) rfl

end MlinkDevice
