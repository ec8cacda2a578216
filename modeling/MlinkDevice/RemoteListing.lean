import MlinkDevice.Device
import MlinkDevice.Listing

/-!
# A listing from afar

A client on the connection asks for the next page when it has read all the replies so far, with the
cursor of the last. What it has read is the beginning of the tools, and all of them at a page
without a cursor.
-/

open MlinkDevice.CStr
open MlinkDevice.LinkedQueue

namespace MlinkDevice

variable {W : Type} {L : CJsonLib}

/-! ## The client -/

/-- The replies that the client can read. -/
def Device.frames (L : CJsonLib) (s : Device W) : List CJson := (L.readStream s.wire.stream).frames

def cursorAfter (frames : List CJson) : Option CStr :=
  frames.getLast?.bind fun reply => (readPage reply).bind (·.nextCursor)

/-- Everything was answered, the last page is not the end, and the chunk asks for what follows. -/
structure AsksNext (L : CJsonLib) (includeUserTools : Bool) (s : Device W) (data : List UInt8) :
    Prop where
  answered : (s.frames L).length = s.delivery.chunks.length
  goesOn : s.frames L ≠ [] → (cursorAfter (s.frames L)).isSome
  request : ∃ id, (L.print (listRequest id includeUserTools (cursorAfter (s.frames L)))).bytes <+: data

/-- The connection stands, and what comes over it are such requests. -/
structure Browses (L : CJsonLib) (includeUserTools : Bool) (s : Device W) (a : DeviceAction) :
    Prop where
  undisturbed : Undisturbed s a
  asks : ∀ data ∈ a.chunk, AsksNext L includeUserTools s data

/-! ## Pages -/

structure PageRequest where
  id : Int32
  cursor : Option CStr

def PageRequest.text (L : CJsonLib) (includeUserTools : Bool) (r : PageRequest) : CStr :=
  L.print (listRequest r.id includeUserTools r.cursor)

def PageRequest.reply (L : CJsonLib) (server : McpServer W) (includeUserTools : Bool)
    (r : PageRequest) : CJson :=
  resultReply r.id (pageResult L server r.cursor includeUserTools)

/-- What page `n` takes of the tools, and what it leaves. -/
def pageNo (L : CJsonLib) (server : McpServer W) (includeUserTools : Bool) (n : ℕ) :
    List (McpTool W) × List (McpTool W) :=
  readTools L (fun _ => server) includeUserTools n

/-- The cursor that page `n` is asked for with. -/
def cursorNo (L : CJsonLib) (server : McpServer W) (includeUserTools : Bool) : ℕ → Option CStr
  | 0 => none
  | n + 1 => (toolsPage (pageNo L server includeUserTools n)).nextCursor

/-- The chunks are requests for one page after the other, and none follows the end. -/
structure Asked (L : CJsonLib) (server : McpServer W) (includeUserTools : Bool)
    (chunks : List (List UInt8)) (asks : List PageRequest) : Prop where
  requests : List.Forall₂ (fun chunk r => (PageRequest.text L includeUserTools r).bytes <+: chunk)
    chunks asks
  cursors : asks.map PageRequest.cursor =
    (List.range chunks.length).map (cursorNo L server includeUserTools)
  goesOn : ∀ n, n + 1 < chunks.length → (cursorNo L server includeUserTools (n + 1)).isSome

section Pages

variable {server : McpServer W} {includeUserTools : Bool} {asks : List PageRequest}
  {chunks : List (List UInt8)}

theorem page_reply (r : PageRequest) :
    (r.reply L server includeUserTools).Plain ∧ (r.reply L server includeUserTools).isObject = true ∧
      readPage (r.reply L server includeUserTools) =
        some (toolsPage (page L server r.cursor includeUserTools)) :=
  ⟨resultReply_plain (pageResult_plain server r.cursor includeUserTools), rfl, readPage_reply r.id _⟩

theorem parseMessages_pages (hL : L.RoundTrips) (asks : List PageRequest) (w : W) :
    parseMessages L server (asks.map (PageRequest.text L includeUserTools)) w =
      (asks.map fun r => .send (L.print (r.reply L server includeUserTools)), w) := by
  induction asks with
  | nil => rfl
  | cons r rest ih =>
    have hr : mcpServerParseMessage L server (r.text L includeUserTools) w =
        ([.send (L.print (r.reply L server includeUserTools))], w) :=
      parseMessage_list hL server r.id includeUserTools r.cursor w
    rw [List.map_cons, parseMessages, hr, ih]
    rfl

theorem page_cursorNo (hnames : ∀ tool ∈ server.tools, CursorName tool) (n : ℕ) :
    page L server (cursorNo L server includeUserTools n) includeUserTools =
      pageNo L server includeUserTools n := by
  cases n with
  | zero => rfl
  | succ n =>
    have hleft : ∀ tool ∈ (pageNo L server includeUserTools n).2, CursorName tool :=
      fun tool htool => hnames tool (List.mem_of_mem_filter (Paging.mem_of_mem_left htool))
    obtain ⟨hnext, hsought⟩ := toolsPage_nextCursor hleft
    rw [cursorNo, hnext, page, hsought]
    rfl

theorem Asked.replies (hnames : ∀ tool ∈ server.tools, CursorName tool)
    (h : Asked L server includeUserTools chunks asks) :
    (asks.map (PageRequest.reply L server includeUserTools)).map readPage =
      (List.range chunks.length).map fun n => some (toolsPage (pageNo L server includeUserTools n)) := by
  have hread : readPage ∘ PageRequest.reply L server includeUserTools =
      (fun cursor => some (toolsPage (page L server cursor includeUserTools))) ∘ PageRequest.cursor :=
    funext fun r => (page_reply r).2.2
  rw [List.map_map, hread, ← List.map_map, h.cursors, List.map_map]
  exact List.map_congr_left fun n _ => by rw [Function.comp, page_cursorNo hnames]

theorem requestOf_text (hL : L.RoundTrips) (includeUserTools : Bool) (r : PageRequest) :
    (requestOf L (r.text L includeUserTools)).isSome := by
  rw [PageRequest.text, listRequest, requestOf_requestJson hL _ _ (listParams_plain _ _)]
  rfl

theorem PageRequest.text_ne_zero (hP : L.PrintsCompactly) (includeUserTools : Bool) (r : PageRequest) :
    (r.text L includeUserTools).strlen ≠ 0 := by
  rw [PageRequest.text, listRequest, requestJson, hP.strlen_object]
  omega

theorem Asked.answered (hL : L.RoundTrips) (hO : L.ReadsOneObject)
    (h : Asked L server includeUserTools chunks asks) (w : W) :
    payloads (answersTo L server w chunks).1 =
      (asks.map (PageRequest.reply L server includeUserTools)).map L.print := by
  rw [answersTo_texts hO server (requestOf_text hL includeUserTools) h.requests,
    parseMessages_pages hL]
  simp [payloads, List.filterMap_map, Function.comp_def, Event.payload]

theorem Asked.reads (hL : L.RoundTrips) (hP : L.PrintsCompactly) (hI : L.RejectsIncomplete)
    (hO : L.ReadsOneObject) (hnames : ∀ tool ∈ server.tools, CursorName tool) {w : W} {s : Device W}
    {nodes : List (Addr × Message)} (hs : s.Serves L server w nodes)
    (h : Asked L server includeUserTools s.delivery.chunks asks) :
    ∃ n ≤ s.delivery.chunks.length, (s.frames L).map readPage = (List.range n).map (fun i =>
        some (toolsPage (pageNo L server includeUserTools i))) ∧
      (s.Idle → n = s.delivery.chunks.length) := by
  have hanswered := h.answered hL hO w
  have hreplies : ∀ v ∈ asks.map (PageRequest.reply L server includeUserTools),
      v.Plain ∧ v.isObject = true := by
    intro v hv
    obtain ⟨r, -, rfl⟩ := List.mem_map.mp hv
    exact ⟨(page_reply r).1, (page_reply r).2.1⟩
  have hpages := h.replies hnames
  obtain ⟨hall, hpart⟩ := CJsonLib.readStream_printed hL hP hI hreplies
  have hbegins := hs.stream_prefix
  rw [hanswered] at hbegins
  obtain ⟨n, hframes⟩ := hpart _ hbegins
  by_cases hidle : s.Idle
  · obtain ⟨hstream, -⟩ := hs.idle hidle
    refine ⟨s.delivery.chunks.length, le_rfl, ?_, fun _ => rfl⟩
    rw [Device.frames, hstream, hanswered, hall, hpages]
  · refine ⟨min n s.delivery.chunks.length, min_le_right _ _, ?_, fun h => absurd h hidle⟩
    rw [Device.frames, hframes, List.map_take, hpages, ← List.map_take, List.take_range]

theorem cursorAfter_eq {frames : List CJson} {n : ℕ}
    (h : frames.map readPage = (List.range n).map fun i =>
      some (toolsPage (pageNo L server includeUserTools i))) :
    cursorAfter frames = cursorNo L server includeUserTools n := by
  have hlast : cursorAfter frames = ((frames.map readPage).getLast?).bind fun page =>
      page.bind (·.nextCursor) := by
    rw [cursorAfter, List.getLast?_map, Option.bind_map]
    rfl
  rw [hlast, h]
  cases n with
  | zero => rfl
  | succ n =>
    rw [List.getLast?_map, List.getLast?_range]
    rfl

/-- **Step.** The next request. -/
theorem Asked.next (h : Asked L server includeUserTools chunks asks) {frames : List CJson} {n : ℕ}
    (hread : frames.map readPage = (List.range n).map fun i =>
      some (toolsPage (pageNo L server includeUserTools i)))
    (hanswered : frames.length = chunks.length)
    (hgoesOn : frames ≠ [] → (cursorAfter frames).isSome) {id : Int32} {data : List UInt8}
    (hrequest : (L.print (listRequest id includeUserTools (cursorAfter frames))).bytes <+: data) :
    Asked L server includeUserTools (chunks ++ [data]) (asks ++ [⟨id, cursorAfter frames⟩]) := by
  have hn : n = chunks.length := by
    have hlength := congrArg List.length hread
    rw [List.length_map, List.length_map, List.length_range] at hlength
    exact hlength.symm.trans hanswered
  subst hn
  have hcursor := cursorAfter_eq hread
  refine ⟨List.rel_append h.requests (.cons hrequest .nil), ?_, fun n hn => ?_⟩
  · rw [List.map_append, h.cursors, List.length_append, List.length_singleton, List.range_succ,
      List.map_append, List.map_singleton, List.map_singleton, hcursor]
  · rw [List.length_append, List.length_singleton] at hn
    rcases Nat.lt_or_ge (n + 1) chunks.length with hlt | hge
    · exact h.goesOn n hlt
    · have hlast : n + 1 = chunks.length := by omega
      rw [hlast, ← hcursor]
      refine hgoesOn fun hnil => ?_
      rw [hnil, List.length_nil, ← hlast] at hanswered
      exact Nat.succ_ne_zero n hanswered.symm

/-! ## What is listed -/

def visibleJson (server : McpServer W) (includeUserTools : Bool) : List CJson :=
  (visible server includeUserTools).map McpTool.json

theorem same_growing (hs : Reachable server) :
    Paging.Growing (·.name) fun _ : ℕ => visible server includeUserTools :=
  ⟨fun _ => List.prefix_rfl, fun _ => hs.inStep.names_nodup.sublist (List.filter_sublist.map _)⟩

theorem listed_json (n : ℕ) :
    ((List.range (n + 1)).map fun i => toolsPage (pageNo L server includeUserTools i)).flatMap
        (·.tools) =
      (Paging.listed (admits L) (·.name) (fun _ => visible server includeUserTools) n).map
        McpTool.json := by
  rw [Paging.listed, List.map_flatMap, List.flatMap_map]
  rfl

theorem cursorNo_isSome (hnames : ∀ tool ∈ server.tools, CursorName tool) {n : ℕ} :
    (cursorNo L server includeUserTools (n + 1)).isSome ↔
      (pageNo L server includeUserTools n).2 ≠ [] := by
  rw [← Option.ne_none_iff_isSome, cursorNo, Ne, pageNo,
    nextCursor_eq_none (fun _ tool htool => hnames tool (List.mem_of_mem_filter htool))]

theorem pages_listed (hs : Reachable server) (hnames : ∀ tool ∈ server.tools, CursorName tool) {n : ℕ}
    (hopen : ∀ i < n, (cursorNo L server includeUserTools (i + 1)).isSome) :
    ((List.range (n + 1)).map fun i => toolsPage (pageNo L server includeUserTools i)).flatMap
        (·.tools) ++ (pageNo L server includeUserTools n).2.map McpTool.json =
      visibleJson server includeUserTools := by
  have hlisted := Paging.listed_append (same_growing hs) n fun i hi =>
    (cursorNo_isSome hnames).mp (hopen i hi)
  rw [listed_json, ← List.map_append]
  exact congrArg (List.map McpTool.json) hlisted

theorem pages_begin (hs : Reachable server) (hnames : ∀ tool ∈ server.tools, CursorName tool) {m : ℕ}
    (hopen : ∀ n, n + 1 < m → (cursorNo L server includeUserTools (n + 1)).isSome) :
    let pages := (List.range m).map fun i => toolsPage (pageNo L server includeUserTools i)
    pages.flatMap (·.tools) <+: visibleJson server includeUserTools ∧
      ∀ last ∈ pages.getLast?, last.nextCursor = none ↔
        pages.flatMap (·.tools) = visibleJson server includeUserTools := by
  intro pages
  cases m with
  | zero => exact ⟨List.nil_prefix, fun last hlast => absurd hlast.symm (Option.some_ne_none last)⟩
  | succ n =>
    have hlisted := pages_listed hs hnames fun i hi => hopen i (Nat.succ_lt_succ hi)
    refine ⟨⟨_, hlisted⟩, fun last hlast => ?_⟩
    have hlast : toolsPage (pageNo L server includeUserTools n) = last := by
      rw [Option.mem_def, List.getLast?_map, List.getLast?_range] at hlast
      exact Option.some.inj hlast
    have hcursor : last.nextCursor = none ↔ (pageNo L server includeUserTools n).2 = [] := by
      rw [← hlast, ← not_iff_not, ← Ne, Option.ne_none_iff_isSome]
      exact cursorNo_isSome hnames
    rw [hcursor, ← hlisted, List.self_eq_append_right, List.map_eq_nil_iff]

theorem Asked.length_le (hs : Reachable server) (hnames : ∀ tool ∈ server.tools, CursorName tool)
    (hadmits : ∀ tool ∈ visible server includeUserTools, admits L [] tool = true)
    (h : Asked L server includeUserTools chunks asks) :
    chunks.length ≤ (visible server includeUserTools).length + 1 := by
  rcases hlength : chunks.length with _ | _ | n
  · exact Nat.zero_le _
  · exact Nat.succ_le_succ (Nat.zero_le _)
  · have hopen : ∀ i ≤ n, (pageNo L server includeUserTools i).2 ≠ [] := fun i hi =>
      (cursorNo_isSome hnames).mp (h.goesOn i (by omega))
    have hatLeast := Paging.le_length_listed n (fun _ => hadmits) hopen
    have hlisted := congrArg List.length
      (Paging.listed_append (same_growing hs) n fun i hi => hopen i (Nat.le_of_lt hi))
    rw [List.length_append] at hlisted
    omega

end Pages

/-! ## The connection -/

section Connection

variable {server : McpServer W} {ops : HwioOps} {w : W} {includeUserTools : Bool}

theorem start_asked : Asked L server includeUserTools [] [] where
  requests := .nil
  cursors := rfl
  goesOn _ h := absurd h (Nat.not_lt_zero _)

theorem AsksNext.along {s : Device W} {a : Addr} {data : List UInt8} {more : List DeviceAction}
    (h : AsksNext L includeUserTools s data) (hdata : data.length ≠ 0)
    (halong : Runs.Along (deviceStep L server ops) Undisturbed s (posted a data :: more))
    (hmore : ∀ b ∈ more, b.internal = true) :
    Runs.Along (deviceStep L server ops) (Browses L includeUserTools) s (posted a data :: more) := by
  refine ⟨⟨halong.1, fun chunk hchunk => ?_⟩, fun t ht => ?_⟩
  · rw [chunk_posted a hdata] at hchunk
    exact Option.some.inj hchunk ▸ h
  · refine ((halong.2 t ht).and_forall hmore).imp (fun _ _ _ _ _ _ => trivial) (fun s b _ hb => ?_)
      trivial
    refine ⟨hb.1, fun chunk hchunk => ?_⟩
    rw [chunk_internal hb.2] at hchunk
    exact absurd hchunk.symm (Option.some_ne_none chunk)

/-- **Step.** -/
theorem deviceStep_asked (hL : L.RoundTrips) (hP : L.PrintsCompactly) (hI : L.RejectsIncomplete)
    (hO : L.ReadsOneObject) (hnames : ∀ tool ∈ server.tools, CursorName tool) (s : Device W)
    (a : DeviceAction) (t : Device W)
    (h : (∃ nodes, s.Serves L server w nodes) ∧
      ∃ asks, Asked L server includeUserTools s.delivery.chunks asks)
    (ha : Browses L includeUserTools s a) (hstep : deviceStep L server ops s a = some t) :
    (∃ nodes, t.Serves L server w nodes) ∧
      ∃ asks, Asked L server includeUserTools t.delivery.chunks asks := by
  obtain ⟨⟨nodes, hs⟩, asks, hasked⟩ := h
  refine ⟨deviceStep_serves s a t ⟨nodes, hs⟩ ha.undisturbed hstep, ?_⟩
  rw [deviceStep_chunks hstep]
  cases hchunk : a.chunk with
  | none => exact ⟨asks, by rwa [Option.toList_none, List.append_nil]⟩
  | some data =>
    obtain ⟨hanswered, hgoesOn, id, hrequest⟩ := ha.asks data hchunk
    obtain ⟨n, -, hread, -⟩ := hasked.reads hL hP hI hO hnames hs
    exact ⟨_, hasked.next hread hanswered hgoesOn hrequest⟩

/-- **Run.** -/
theorem run_asked (hL : L.RoundTrips) (hP : L.PrintsCompactly) (hI : L.RejectsIncomplete)
    (hO : L.ReadsOneObject) (hnames : ∀ tool ∈ server.tools, CursorName tool) {worker : Bool}
    {actions : List DeviceAction} {s : Device W}
    (halong : Runs.Along (deviceStep L server ops) (Browses L includeUserTools) (.start worker w)
      actions)
    (hrun : Runs.run (deviceStep L server ops) (.start worker w) actions = some s) :
    (∃ nodes, s.Serves L server w nodes) ∧
      ∃ asks, Asked L server includeUserTools s.delivery.chunks asks :=
  Runs.run_invariant
    (fun s : Device W => (∃ nodes, s.Serves L server w nodes) ∧
      ∃ asks, Asked L server includeUserTools s.delivery.chunks asks)
    (deviceStep_asked hL hP hI hO hnames) ⟨⟨[], start_serves L server worker w⟩, [], start_asked⟩
    halong hrun

theorem AsksNext.of_read {s : Device W} {m : ℕ}
    (hread : (s.frames L).map readPage = (List.range m).map fun i =>
      some (toolsPage (pageNo L server includeUserTools i)))
    (hchunks : s.delivery.chunks.length = m)
    (hopen : ∀ n, n + 1 = m → (cursorNo L server includeUserTools m).isSome) (id : Int32) :
    AsksNext L includeUserTools s
      (PageRequest.text L includeUserTools ⟨id, cursorAfter (s.frames L)⟩).bytes := by
  have hlength := congrArg List.length hread
  rw [List.length_map, List.length_map, List.length_range] at hlength
  refine ⟨hlength.trans hchunks.symm, fun hne => ?_, id, List.prefix_refl _⟩
  rw [cursorAfter_eq hread]
  cases m with
  | zero => exact absurd (List.eq_nil_of_length_eq_zero hlength) hne
  | succ n => exact hopen n rfl

/-- **Step.** An idle server can be asked for the next page, and answers. -/
theorem Device.Ready.browse (hL : L.RoundTrips) (hP : L.PrintsCompactly) (hI : L.RejectsIncomplete)
    (hO : L.ReadsOneObject) (hnames : ∀ tool ∈ server.tools, CursorName tool)
    (hsize : ∀ r : PageRequest, (L.print (r.reply L server includeUserTools)).strlen < 2 ^ 32)
    (ops : HwioOps) {s : Device W} (hready : s.Ready L server w)
    (hasked : Asked L server includeUserTools s.delivery.chunks asks)
    (hopen : ∀ n, n + 1 = s.delivery.chunks.length →
      (cursorNo L server includeUserTools s.delivery.chunks.length).isSome) :
    ∃ actions t, Runs.Along (deviceStep L server ops) (Browses L includeUserTools) s actions ∧
      Runs.run (deviceStep L server ops) s actions = some t ∧ t.Ready L server w ∧
      t.delivery.chunks.length = s.delivery.chunks.length + 1 := by
  obtain ⟨⟨nodes, hs⟩, -⟩ := hready.working
  obtain ⟨n, -, hread, hidle⟩ := hasked.reads hL hP hI hO hnames hs
  rw [hidle hready.idle] at hread
  let r : PageRequest := ⟨1, cursorAfter (s.frames L)⟩
  have hasks : AsksNext L includeUserTools s (r.text L includeUserTools).bytes :=
    .of_read hread rfl hopen 1
  have hnext : Asked L server includeUserTools
      (s.delivery.chunks ++ [(r.text L includeUserTools).bytes]) (asks ++ [r]) :=
    hasked.next hread hasks.answered hasks.goesOn (List.prefix_refl _)
  have hfits : ∀ payload ∈ payloads (answersTo L server w
      (s.delivery.chunks ++ [(r.text L includeUserTools).bytes])).1, payload.strlen < 2 ^ 32 := by
    intro payload hpayload
    rw [hnext.answered hL hO, List.map_map] at hpayload
    obtain ⟨r, -, rfl⟩ := List.mem_map.mp hpayload
    exact hsize r
  have htext := r.text_ne_zero hP includeUserTools
  obtain ⟨a, more, t, hmore, hpost, hrun, ht, hlast⟩ := hready.post ops htext hfits
  refine ⟨_, t, hasks.along htext hpost hmore, hrun, ht, ?_⟩
  rw [hlast, List.length_append, List.length_singleton]

/-- **Run.** As long as the last page has a cursor, a client can ask for another one, and reads it. -/
theorem exists_run_browses (hL : L.RoundTrips) (hP : L.PrintsCompactly) (hI : L.RejectsIncomplete)
    (hO : L.ReadsOneObject) (hnames : ∀ tool ∈ server.tools, CursorName tool)
    (hsize : ∀ r : PageRequest, (L.print (r.reply L server includeUserTools)).strlen < 2 ^ 32)
    (ops : HwioOps) (w : W) (m : ℕ)
    (hopen : ∀ n, n + 1 < m → (cursorNo L server includeUserTools (n + 1)).isSome) :
    ∃ actions s,
      Runs.Along (deviceStep L server ops) (Browses L includeUserTools) (.start true w) actions ∧
      Runs.run (deviceStep L server ops) (.start true w) actions = some s ∧ s.Ready L server w ∧
      (s.frames L).map readPage = (List.range m).map fun i =>
        some (toolsPage (pageNo L server includeUserTools i)) := by
  -- The pages are read off a state in which so many were asked for.
  suffices hrun : ∃ actions s,
      Runs.Along (deviceStep L server ops) (Browses L includeUserTools) (.start true w) actions ∧
      Runs.run (deviceStep L server ops) (.start true w) actions = some s ∧ s.Ready L server w ∧
      s.delivery.chunks.length = m by
    obtain ⟨actions, s, halong, hrun, hready, hchunks⟩ := hrun
    obtain ⟨⟨nodes, hs⟩, asks, hasked⟩ := run_asked hL hP hI hO hnames halong hrun
    obtain ⟨n, -, hread, hidle⟩ := hasked.reads hL hP hI hO hnames hs
    rw [hidle hready.idle, hchunks] at hread
    exact ⟨actions, s, halong, hrun, hready, hread⟩
  induction m with
  | zero => exact ⟨[], _, trivial, rfl, start_ready L server w, rfl⟩
  | succ m ih =>
    obtain ⟨actions, s, halong, hrun, hready, rfl⟩ := ih fun n hn => hopen n (Nat.lt_succ_of_lt hn)
    obtain ⟨-, asks, hasked⟩ := run_asked hL hP hI hO hnames halong hrun
    obtain ⟨more, t, hmore, hrun', ht, hlast⟩ := hready.browse hL hP hI hO hnames hsize ops hasked
      fun n hn => hn ▸ hopen n (hn ▸ Nat.lt_succ_self _)
    refine ⟨actions ++ more, t, halong.append hrun hmore, ?_, ht, hlast⟩
    rw [Runs.run_append, hrun]
    exact hrun'

end Connection

/-! ## Two pages -/

theorem lengthy_size (r : PageRequest) : (CJsonLib.reference.print
    (r.reply CJsonLib.reference lengthyServer true)).strlen < 2 ^ 32 := by
  have hP := CJsonLib.reference_printsCompactly
  have hid := strlen_id_le r.id
  have hpage := strlen_pageResult_le hP CJsonLib.reference_escapesShortly
    (.inl (lengthyServer_estimated hP true)) r.cursor
  rw [PageRequest.reply, strlen_resultReply hP]
  rw [maxPayload] at hpage
  omega

theorem lengthy_cursors :
    cursorNo CJsonLib.reference lengthyServer true 1 = some (lit "c") ∧
      cursorNo CJsonLib.reference lengthyServer true 2 = none := by
  have hfirst : cursorNo CJsonLib.reference lengthyServer true 1 = some (lit "c") :=
    lengthy_nextCursor true
  have hnames : ∀ tool ∈ lengthyServer.tools, CursorName tool := by
    rw [lengthyServer_tools]
    exact fun tool htool => (lengthy_listable (List.mem_append_left _ htool)).1
  refine ⟨hfirst, ?_⟩
  rw [cursorNo, ← page_cursorNo hnames, hfirst, lengthy_lastPage CJsonLib.reference_printsCompactly]
  rfl

end MlinkDevice
