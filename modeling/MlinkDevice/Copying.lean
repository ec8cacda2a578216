import MlinkDevice.Arguments

/-!
# Calls when memory runs out

`mcp_server_parse_arguments` checks a copy of the tool's properties. A list that cannot grow
leaves an empty copy, and a name that cannot be copied is NULL in it.
-/

open MlinkDevice.CStr

namespace MlinkDevice.Copying

variable {W : Type}

/-! ## The copy -/

/-- Which of the allocations for one property succeed: the growth of the list, where it has to
grow, and the copies of the name and of the default. -/
structure CopyMemory where
  items : Bool
  name : Bool
  value : Bool

def CopyMemory.plenty : CopyMemory := ⟨true, true, true⟩

/-- `struct mcp_property_list`. `items` is the used part of the array. -/
structure PropertyList where
  items : List McpProperty := []
  capacity : ℕ := 0

def utilsStrdup (memory : Bool) (src : Option CStr) : Option CStr := if memory then src else none

def propertyCopyFunc (memory : CopyMemory) (src : McpProperty) : McpProperty where
  name := utilsStrdup memory.name src.name
  value := match src.value with
    | .string s => if src.hasDefault then .string (utilsStrdup memory.value s) else .string s
    | v => v
  hasDefault := src.hasDefault
  hasMin := src.hasMin
  hasMax := src.hasMax
  minValue := src.minValue
  maxValue := src.maxValue

def listReserve (memory : Bool) (list : PropertyList) (required : ℕ) : Bool × PropertyList :=
  if required ≤ list.capacity then (true, list)
  else
    let capacity := doubleUntil required (if list.capacity = 0 then 4 else list.capacity * 2)
    if memory then (true, { list with capacity }) else (false, list)

def mcpPropertyListAdd (memory : CopyMemory) (list : PropertyList) (property : McpProperty) :
    Bool × PropertyList :=
  match listReserve memory.items list (list.items.length + 1) with
  | (false, list) => (false, list)
  | (true, list) => (true, { list with items := list.items ++ [propertyCopyFunc memory property] })

/-- The loop of `mcp_property_list_clone`, which frees the copy when it cannot go on. -/
def cloneLoop (memory : ℕ → CopyMemory) : PropertyList → List McpProperty → PropertyList
  | clone, [] => clone
  | clone, property :: rest =>
    match mcpPropertyListAdd (memory clone.items.length) clone property with
    | (false, _) => {}
    | (true, clone) => cloneLoop memory clone rest

/-- `mcp_property_list_clone`, where `memory i` is for the property at index `i`. -/
def mcpPropertyListClone (memory : ℕ → CopyMemory) (source : List McpProperty) :
    List McpProperty := (cloneLoop memory {} source).items

/-! ## The call -/

def mcpServerParseArguments (memory : ℕ → CopyMemory) (tool : McpTool W)
    (arguments : Option CJson) : ParsedArguments :=
  parseArgumentsLoop arguments (mcpPropertyListClone memory tool.properties) true none

def mcpServerDoToolCall (L : CJsonLib) (memory : ℕ → CopyMemory) (server : McpServer W)
    (id : Int32) (toolName : CStr) (arguments : Option CJson) (w : W) : List (Event W) × W :=
  match mcpServerFindToolByHash server toolName with
  | none => (mcpServerReplyError L id (message128 (lit "Unknown tool: " ++ toolName)), w)
  | some tool =>
    let args := mcpServerParseArguments memory tool arguments
    if !args.ok then
      (mcpServerReplyError L id (message128
        (lit "Invalid argument: " ++ args.errorProperty.getD (lit "unknown"))), w)
    else
      match mcpToolCall L tool args.parsed w with
      | (some result, events, w) => (events ++ mcpServerReplyResult L id result, w)
      | (none, events, w) => (events ++ mcpServerReplyError L id (lit "Tool call failed"), w)

/-! ## What is copied -/

/-- The capacity of a list after that many additions. -/
def capacityAfter : ℕ → ℕ
  | 0 => 0
  | i + 1 =>
    let capacity := capacityAfter i
    if i + 1 ≤ capacity then capacity
    else doubleUntil (i + 1) (if capacity = 0 then 4 else capacity * 2)

/-- The list gets its memory each time it has to grow for one of the first `n` properties. -/
def Grows (memory : ℕ → CopyMemory) (n : ℕ) : Prop :=
  ∀ i < n, capacityAfter i < i + 1 → (memory i).items = true

instance (memory : ℕ → CopyMemory) (n : ℕ) : Decidable (Grows memory n) :=
  inferInstanceAs (Decidable (∀ i < n, _ → _))

theorem add_eq (memory : CopyMemory) {list : PropertyList} (property : McpProperty)
    (hcapacity : list.capacity = capacityAfter list.items.length) :
    mcpPropertyListAdd memory list property =
      if capacityAfter list.items.length < list.items.length + 1 → memory.items = true then
        (true, ⟨list.items ++ [propertyCopyFunc memory property],
          capacityAfter (list.items.length + 1)⟩)
      else (false, list) := by
  unfold mcpPropertyListAdd listReserve
  rw [capacityAfter, hcapacity]
  by_cases hroom : list.items.length + 1 ≤ capacityAfter list.items.length
  · have hgrow : capacityAfter list.items.length < list.items.length + 1 → memory.items = true :=
      fun hlt => absurd hroom (by omega)
    rw [if_pos hroom, if_pos hgrow, if_pos hroom, ← hcapacity]
  · have hfull : capacityAfter list.items.length < list.items.length + 1 := by omega
    simp only [if_neg hroom, hfull, true_imp_iff]
    cases memory.items <;> rfl

theorem cloneLoop_eq (memory : ℕ → CopyMemory) (source : List McpProperty) (clone : PropertyList)
    (hcapacity : clone.capacity = capacityAfter clone.items.length)
    (hdone : Grows memory clone.items.length) :
    (cloneLoop memory clone source).items =
      if Grows memory (clone.items.length + source.length) then
        clone.items ++ source.mapIdx fun i p =>
          propertyCopyFunc (memory (clone.items.length + i)) p
      else [] := by
  induction source generalizing clone with
  | nil => simp [cloneLoop, hdone]
  | cons p rest ih =>
    unfold cloneLoop
    rw [add_eq _ p hcapacity]
    by_cases hgrow : capacityAfter clone.items.length < clone.items.length + 1 →
        (memory clone.items.length).items = true
    · have hnext : Grows memory (clone.items.length + 1) := by
        intro i hi
        rcases Nat.lt_succ_iff_lt_or_eq.mp hi with hlt | rfl
        · exact hdone i hlt
        · exact hgrow
      have hloop := ih ⟨clone.items ++ [propertyCopyFunc (memory clone.items.length) p],
        capacityAfter (clone.items.length + 1)⟩ (by simp) (by simpa using hnext)
      simp only [List.length_append, List.length_singleton] at hloop
      simp only [if_pos hgrow, hloop, List.length_cons, List.mapIdx_cons, List.append_assoc,
        List.singleton_append, Nat.add_zero, Nat.add_assoc, Nat.add_comm 1]
    · have hfails : ¬ Grows memory (clone.items.length + (p :: rest).length) :=
        fun h => hgrow (h _ (by simp))
      rw [if_neg hgrow, if_neg hfails]

theorem clone_eq (memory : ℕ → CopyMemory) (source : List McpProperty) :
    mcpPropertyListClone memory source =
      if Grows memory source.length then
        source.mapIdx fun i p => propertyCopyFunc (memory i) p
      else [] := by
  have h := cloneLoop_eq memory source {} rfl fun i hi => absurd hi (Nat.not_lt_zero i)
  simpa [mcpPropertyListClone] using h

/-! ## With memory to spare -/

theorem copy_plenty (property : McpProperty) :
    propertyCopyFunc .plenty property = MlinkDevice.propertyCopyFunc property := rfl

theorem clone_plenty (source : List McpProperty) :
    mcpPropertyListClone (fun _ => .plenty) source = source := by
  have hgrows : Grows (fun _ => .plenty) source.length := fun _ _ _ => rfl
  rw [clone_eq, if_pos hgrows]
  refine List.ext_getElem? fun i => ?_
  simp [copy_plenty]

theorem doToolCall_plenty (L : CJsonLib) (server : McpServer W) (id : Int32) (toolName : CStr)
    (arguments : Option CJson) (w : W) :
    mcpServerDoToolCall L (fun _ => .plenty) server id toolName arguments w =
      MlinkDevice.mcpServerDoToolCall L server id toolName arguments w := by
  have hparsed (tool : McpTool W) : mcpServerParseArguments (fun _ => .plenty) tool arguments =
      MlinkDevice.mcpServerParseArguments tool arguments := by
    unfold mcpServerParseArguments MlinkDevice.mcpServerParseArguments
    rw [clone_plenty, mcpPropertyListClone_eq]
  unfold mcpServerDoToolCall MlinkDevice.mcpServerDoToolCall
  cases mcpServerFindToolByHash server toolName with
  | none => rfl
  | some tool =>
    have hargs := hparsed tool
    dsimp only
    generalize mcpServerParseArguments (fun _ => .plenty) tool arguments = args at hargs ⊢
    subst hargs
    rfl

/-! ## The check of a copy -/

/-- What the callback gets for a declared property: its name and type, and without a default
the value of its argument. -/
structure Handed (arguments : Option CJson) (declared passed : McpProperty) : Prop where
  name : passed.name = declared.name
  type : passed.type = declared.type
  value : declared.hasDefault = false → ∃ v, argumentOf arguments declared = some v ∧
    accepts declared v = true ∧ passed.value = (stored declared v).value ∧ passed.hasDefault = true

/-- The list has every property that the tool declares. -/
def Complete (arguments : Option CJson) (declared passed : List McpProperty) : Prop :=
  ∀ (i : ℕ) d, declared[i]? = some d → ∃ p, passed[i]? = some p ∧ Handed arguments d p

/-- A call of the tool gives its callback the whole list, or else ends in an error. -/
def Guarded (L : CJsonLib) (memory : ℕ → CopyMemory) (server : McpServer W) (id : Int32)
    (tool : McpTool W) (arguments : Option CJson) (w : W) : Prop :=
  (∀ passed, (tool, passed) ∈
      calls (mcpServerDoToolCall L memory server id tool.name arguments w).1 →
    Complete arguments tool.properties passed) ∧
  (calls (mcpServerDoToolCall L memory server id tool.name arguments w).1 = [] →
    ∃ message, (mcpServerDoToolCall L memory server id tool.name arguments w).1 =
      mcpServerReplyError L id message)

theorem doToolCall_cases (L : CJsonLib) (memory : ℕ → CopyMemory) {server : McpServer W}
    (id : Int32) {tool : McpTool W} (hfind : mcpServerFindToolByHash server tool.name = some tool)
    (arguments : Option CJson) (w : W) :
    let args := mcpServerParseArguments memory tool arguments
    let events := (mcpServerDoToolCall L memory server id tool.name arguments w).1
    ((args.ok = false ∨ tool.callback = none) ∧
      ∃ message, events = mcpServerReplyError L id message) ∨
    (args.ok = true ∧ tool.callback ≠ none ∧
      ∃ result, events = .call tool args.parsed :: mcpServerReplyResult L id result) := by
  intro args events
  simp only [events, mcpServerDoToolCall, hfind]
  cases hok : (mcpServerParseArguments memory tool arguments).ok with
  | false => exact .inl ⟨.inl rfl, _, rfl⟩
  | true =>
    simp only [mcpToolCall]
    cases hcallback : tool.callback with
    | none => exact .inl ⟨.inr rfl, _, rfl⟩
    | some callback => exact .inr ⟨trivial, Option.some_ne_none _, _, rfl⟩

theorem guarded_iff_complete (L : CJsonLib) (memory : ℕ → CopyMemory) {server : McpServer W}
    (id : Int32) {tool : McpTool W} (hfind : mcpServerFindToolByHash server tool.name = some tool)
    (arguments : Option CJson) (w : W) :
    Guarded L memory server id tool arguments w ↔
      tool.callback = none ∨ (mcpServerParseArguments memory tool arguments).ok = false ∨
        Complete arguments tool.properties
          (mcpServerParseArguments memory tool arguments).parsed := by
  let args := mcpServerParseArguments memory tool arguments
  unfold Guarded
  rcases doToolCall_cases L memory id hfind arguments w with
    ⟨hrefused, message, hevents⟩ | ⟨hok, hcallback, result, hevents⟩
  · have hcalls : calls (mcpServerReplyError L id message : List (Event W)) = [] := rfl
    rw [hevents, hcalls]
    refine ⟨fun _ => ?_, fun _ => ⟨fun _ h => absurd h List.not_mem_nil, fun _ => ⟨message, rfl⟩⟩⟩
    rcases hrefused with hok | hnone
    · exact .inr (.inl hok)
    · exact .inl hnone
  · have hcalls : calls (.call tool args.parsed :: mcpServerReplyResult L id result) =
        [(tool, args.parsed)] := rfl
    rw [hevents, hcalls]
    constructor
    · exact fun h => .inr (.inr (h.1 _ List.mem_cons_self))
    · rintro (hnone | hbad | hcomplete)
      · exact absurd hnone hcallback
      · exact Bool.noConfusion (hok.symm.trans hbad)
      · refine ⟨fun passed hpassed => ?_, fun h => absurd h (List.cons_ne_nil _ _)⟩
        obtain rfl : passed = args.parsed := by simpa using hpassed
        exact hcomplete

theorem argumentOf_copy (memory : CopyMemory) (arguments : Option CJson) (p : McpProperty) :
    argumentOf arguments (propertyCopyFunc memory p) =
      if memory.name then argumentOf arguments p else none := by
  unfold argumentOf
  cases hname : memory.name with
  | true => simp [propertyCopyFunc, utilsStrdup, hname]
  | false => cases arguments <;> simp [propertyCopyFunc, utilsStrdup, hname]

theorem accepts_copy (memory : CopyMemory) (p : McpProperty) (v : CJson) :
    accepts (propertyCopyFunc memory p) v = accepts p v := by
  obtain ⟨name, value, hasDefault, hasMin, hasMax, minValue, maxValue⟩ := p
  cases value with
  | string s => cases hasDefault <;> cases v <;> rfl
  | _ => cases v <;> rfl

theorem stored_copy (memory : CopyMemory) {p : McpProperty} {v : CJson}
    (h : accepts p v = true) :
    (stored (propertyCopyFunc memory p) v).value = (stored p v).value := by
  obtain ⟨name, value, hasDefault, hasMin, hasMax, minValue, maxValue⟩ := p
  cases value <;> cases v <;> first | rfl | exact absurd h Bool.false_ne_true

theorem passes_copy (memory : CopyMemory) (arguments : Option CJson) (p : McpProperty) :
    passes arguments (propertyCopyFunc memory p) =
      if memory.name then passes arguments p else p.hasDefault := by
  unfold passes
  rw [argumentOf_copy]
  cases memory.name with
  | true =>
    simp only [if_true, accepts_copy]
    rfl
  | false => rfl

/-! ## When the check holds -/

/-- No property with a default loses its name. -/
def KeepsNames (memory : ℕ → CopyMemory) (properties : List McpProperty) : Prop :=
  ∀ (i : ℕ) p, properties[i]? = some p → p.hasDefault = true → p.name ≠ none →
    (memory i).name = true

/-- A property without default loses its name, or one that keeps it has a bad argument or none
where it needs one. -/
def RefusesAnyway (memory : ℕ → CopyMemory) (arguments : Option CJson)
    (properties : List McpProperty) : Prop :=
  ∃ (i : ℕ) (p : McpProperty), properties[i]? = some p ∧
    if (memory i).name then passes arguments p = false else p.hasDefault = false

theorem refusesAnyway_iff (memory : ℕ → CopyMemory) (arguments : Option CJson)
    (properties : List McpProperty) :
    RefusesAnyway memory arguments properties ↔
      ∃ (i : ℕ) (p : McpProperty), properties[i]? = some p ∧
        passes arguments (propertyCopyFunc (memory i) p) = false := by
  refine exists₂_congr fun i p => and_congr_right fun _ => ?_
  rw [passes_copy]
  cases (memory i).name <;> rfl

theorem copy_type (memory : CopyMemory) (p : McpProperty) :
    (propertyCopyFunc memory p).type = p.type := by
  obtain ⟨name, value, hasDefault, hasMin, hasMax, minValue, maxValue⟩ := p
  cases value with
  | string s => cases hasDefault <;> rfl
  | _ => rfl

theorem value_of_passes {memory : CopyMemory} {arguments : Option CJson} {p : McpProperty}
    (h : passes arguments (propertyCopyFunc memory p) = true) (hdefault : p.hasDefault = false) :
    ∃ v, argumentOf arguments p = some v ∧ accepts p v = true ∧
      (received arguments (propertyCopyFunc memory p)).value = (stored p v).value ∧
      (received arguments (propertyCopyFunc memory p)).hasDefault = true := by
  rw [passes_copy] at h
  have hmemory : memory.name = true := by
    by_contra hmemory
    rw [if_neg hmemory, hdefault] at h
    exact Bool.noConfusion h
  rw [if_pos hmemory, passes] at h
  cases hvalue : argumentOf arguments p with
  | none =>
    rw [hvalue, hdefault] at h
    exact Bool.noConfusion h
  | some v =>
    rw [hvalue] at h
    have hcopy : accepts (propertyCopyFunc memory p) v = true := (accepts_copy memory p v).trans h
    have hreceived : received arguments (propertyCopyFunc memory p) =
        stored (propertyCopyFunc memory p) v := by
      rw [received, argumentOf_copy, if_pos hmemory, hvalue]
    rw [hreceived]
    exact ⟨v, rfl, h, stored_copy memory h, (stored_type hcopy).2.2⟩

theorem handed_iff {memory : CopyMemory} {arguments : Option CJson} {p : McpProperty}
    (h : passes arguments (propertyCopyFunc memory p) = true) :
    Handed arguments p (received arguments (propertyCopyFunc memory p)) ↔
      (p.hasDefault = true → p.name ≠ none → memory.name = true) := by
  have hname : (received arguments (propertyCopyFunc memory p)).name =
      if memory.name then p.name else none := received_name arguments _
  constructor
  · intro hhanded _ hsome
    by_contra hmemory
    rw [hhanded.name, if_neg hmemory] at hname
    exact hsome hname
  · intro hkeeps
    refine ⟨?_, (received_type h).trans (copy_type memory p), value_of_passes h⟩
    rw [hname]
    split_ifs with hmemory
    · rfl
    · rw [passes_copy, if_neg hmemory] at h
      by_contra hsome
      exact hmemory (hkeeps h (Ne.symm hsome))

theorem complete_iff {memory : ℕ → CopyMemory} {arguments : Option CJson}
    {properties : List McpProperty}
    (h : ∀ (i : ℕ) p, properties[i]? = some p →
      passes arguments (propertyCopyFunc (memory i) p) = true) :
    Complete arguments properties
        ((properties.mapIdx fun i p => propertyCopyFunc (memory i) p).map (received arguments)) ↔
      KeepsNames memory properties := by
  refine forall₂_congr fun i p => forall_congr' fun hp => ?_
  have hat : ((properties.mapIdx fun i p => propertyCopyFunc (memory i) p).map
      (received arguments))[i]? = some (received arguments (propertyCopyFunc (memory i) p)) := by
    simp [hp]
  rw [hat, ← handed_iff (h i p hp)]
  simp

theorem copies_pass_iff {memory : ℕ → CopyMemory} {arguments : Option CJson}
    {properties : List McpProperty} :
    (properties.mapIdx fun i p => propertyCopyFunc (memory i) p).all (passes arguments) = true ↔
      ∀ (i : ℕ) p, properties[i]? = some p →
        passes arguments (propertyCopyFunc (memory i) p) = true := by
  rw [List.all_eq_true]
  constructor
  · intro h i p hp
    refine h _ (List.mem_iff_getElem?.mpr ⟨i, ?_⟩)
    simp [hp]
  · intro h q hq
    obtain ⟨i, hi⟩ := List.mem_iff_getElem?.mp hq
    rw [List.getElem?_mapIdx, Option.map_eq_some_iff] at hi
    obtain ⟨p, hp, rfl⟩ := hi
    exact h i p hp

theorem not_complete_nil {memory : ℕ → CopyMemory} {arguments : Option CJson}
    {properties : List McpProperty} (h : ¬ Grows memory properties.length) :
    ¬ Complete arguments properties [] := by
  intro hcomplete
  cases properties with
  | nil => exact h fun i hi => absurd hi (Nat.not_lt_zero i)
  | cons p rest =>
    obtain ⟨q, hq, -⟩ := hcomplete 0 p rfl
    exact Option.some_ne_none q hq.symm

/-- A call is guarded exactly when the copy grows to its full length, and each property with a
default keeps its name or the call is refused for another. -/
theorem guarded_iff (L : CJsonLib) (memory : ℕ → CopyMemory) {server : McpServer W}
    (id : Int32) {tool : McpTool W} (hfind : mcpServerFindToolByHash server tool.name = some tool)
    (arguments : Option CJson) (w : W) :
    Guarded L memory server id tool arguments w ↔
      tool.callback = none ∨ (Grows memory tool.properties.length ∧
        (KeepsNames memory tool.properties ∨
          RefusesAnyway memory arguments tool.properties)) := by
  rw [guarded_iff_complete L memory id hfind, refusesAnyway_iff]
  refine or_congr_right ?_
  unfold mcpServerParseArguments
  rw [clone_eq]
  by_cases hgrows : Grows memory tool.properties.length
  · rw [if_pos hgrows, parseLoop_ok, Bool.true_and]
    simp only [hgrows, true_and]
    by_cases hpasses : ∀ (i : ℕ) p, tool.properties[i]? = some p →
        passes arguments (propertyCopyFunc (memory i) p) = true
    · have hall := copies_pass_iff.mpr hpasses
      rw [parseLoop_passes (List.all_eq_true.mp hall), hall, complete_iff hpasses]
      have hnone : ¬ ∃ (i : ℕ) (p : McpProperty), tool.properties[i]? = some p ∧
          passes arguments (propertyCopyFunc (memory i) p) = false := by
        rintro ⟨i, p, hp, hfails⟩
        exact Bool.noConfusion ((hpasses i p hp).symm.trans hfails)
      simp [hnone]
    · have hall := mt copies_pass_iff.mp hpasses
      push Not at hpasses
      obtain ⟨i, p, hp, hfails⟩ := hpasses
      exact iff_of_true (.inl (eq_false_of_ne_true hall))
        (.inr ⟨i, p, hp, eq_false_of_ne_true hfails⟩)
  · -- The list is empty, so nothing is checked and nothing is handed over.
    rw [if_neg hgrows]
    simp [parseArgumentsLoop, hgrows, not_complete_nil hgrows]

/-! ## A tool that needs its argument -/

def lightTool : McpTool Unit where
  name := lit "light"
  description := ∅
  properties := (MlinkDevice.mcpPropertyListAddBool [] (some (lit "on")) false false).2
  callback := some fun _ w => (.bool true, w)
  userOnly := false

def lightServer : McpServer Unit := (addTools (mcpServerInit none) [lightTool]).2

theorem lightServer_finds :
    mcpServerFindToolByHash lightServer lightTool.name = some lightTool := rfl

/-- The list cannot grow. -/
def noList : ℕ → CopyMemory := fun _ => ⟨false, true, true⟩

/-- There is no memory for the names. -/
def noNames : ℕ → CopyMemory := fun _ => ⟨true, false, true⟩

/-- Without its name the property lacks the argument that was sent, and the call is refused. -/
theorem guarded_iff_light :
    let arguments := CJson.object [(lit "on", .bool true)]
    Guarded CJsonLib.reference noNames lightServer 1 lightTool (some arguments) () ∧
    calls (mcpServerDoToolCall CJsonLib.reference noNames lightServer 1 lightTool.name
      (some arguments) ()).1 = [] := by
  refine ⟨(guarded_iff CJsonLib.reference noNames 1 lightServer_finds _ ()).mpr
    (.inr ⟨by decide, .inr ⟨0, _, rfl, rfl⟩⟩), rfl⟩

/-- Without memory for the list, the callback runs without the argument that it needs. -/
theorem short_copy_called :
    calls (mcpServerDoToolCall CJsonLib.reference noList lightServer 1 lightTool.name none ()).1 =
      [(lightTool, [])] ∧
    ¬ Guarded CJsonLib.reference noList lightServer 1 lightTool none () := by
  have hcalls : calls (mcpServerDoToolCall CJsonLib.reference noList lightServer 1 lightTool.name
      none ()).1 = [(lightTool, [])] := rfl
  refine ⟨hcalls, fun h => ?_⟩
  have hcomplete := h.1 [] (by rw [hcalls]; exact List.mem_cons_self)
  obtain ⟨p, hp, -⟩ := hcomplete 0 _ rfl
  exact Option.some_ne_none p hp.symm

end MlinkDevice.Copying
