import MlinkDevice.Pointers.Call
import Mathlib.Algebra.BigOperators.Group.Finset.Piecewise
import Mathlib.Data.Fintype.Basic

/-!
# The tool registry with its pointers

The registry of `mcp_server.c` over allocated blocks: the array of tools and the 256 buckets hold
pointers to the tools, which the server owns from their registration on.
-/

open MlinkDevice.CStr MlinkDevice.Sep MlinkDevice.Sep.Assertion

namespace MlinkDevice.Pointers

variable {W : Type}

/-! ## The functions -/

/-- The registry fields of `struct mcp_server`. -/
structure Server where
  tools : Option Addr := none
  count : ℕ := 0
  capacity : ℕ := 0
  toolHash : Fin 256 → Option Addr := fun _ => none
  toolHashCount : Fin 256 → ℕ := fun _ => 0

def readTools : Option Addr → Prog Block (ℕ × List Addr)
  | none => fault
  | some a => do
    match ← load a with
    | .tools capacity tools => return (capacity, tools)
    | _ => fault

def getTool (array : Option Addr) (i : ℕ) : Prog Block Addr := do
  let (_, tools) ← readTools array
  match tools[i]? with
  | some tool => return tool
  | none => fault

/-- A write to the next entry, which has to be inside of the array. -/
def setNextTool (array : Option Addr) (i : ℕ) (tool : Addr) : Prog Block Unit := do
  let (capacity, tools) ← readTools array
  match array with
  | none => fault
  | some a =>
    if i = tools.length ∧ i < capacity then store a (.tools capacity (tools ++ [tool])) else fault

def toolName (tool : Addr) : Prog Block CStr := do
  let tool ← readTool tool
  match ← readString tool.name with
  | some name => return name
  | none => fault

/-- The loop of `mcp_server_find_tool_by_hash`, from the entry `i` on with `n` entries left. -/
def findInBucket (bucket : Option Addr) (name : CStr) : ℕ → ℕ → Prog Block (Option Addr)
  | _, 0 => return none
  | i, n + 1 => do
    let tool ← getTool bucket i
    if (← toolName tool) = name then return some tool else findInBucket bucket name (i + 1) n

def mcpServerFindToolByHash (server : Server) (name : CStr) : Prog Block (Option Addr) :=
  findInBucket (server.toolHash (toolNameHash name)) name 0
    (server.toolHashCount (toolNameHash name))

/-- The old entries in a larger array. -/
def growTools (capacity : ℕ) : Option Block → Block
  | some (.tools _ tools) => .tools capacity tools
  | _ => .tools capacity []

def mcpServerReserveTools (server : Server) (required : ℕ) : Prog Block (Bool × Server) :=
  if required ≤ server.capacity then return (true, server)
  else do
    let capacity := doubleUntil required (if server.capacity = 0 then 4 else server.capacity * 2)
    match ← realloc server.tools (growTools capacity) with
    | none => return (false, server)
    | some tools => return (true, { server with tools := some tools, capacity })

def Server.setBucket (server : Server) (hash : Fin 256) (bucket : Option Addr) (count : ℕ) :
    Server :=
  { server with
    toolHash := Function.update server.toolHash hash bucket
    toolHashCount := Function.update server.toolHashCount hash count }

/-- `mcp_server_add_tool_to_hash`, which allocates the first bucket of one entry and reallocates
a larger one. -/
def mcpServerAddToolToHash (server : Server) (tool : Addr) : Prog Block (Bool × Server) := do
  let hash := toolNameHash (← toolName tool)
  let count := server.toolHashCount hash
  if count = 0 then
    match ← malloc (.tools 1 []) with
    | none => return (false, server.setBucket hash none 0)
    | some bucket => do
      setNextTool (some bucket) 0 tool
      return (true, server.setBucket hash (some bucket) 1)
  else
    match ← realloc (server.toolHash hash) (growTools (count + 1)) with
    | none => return (false, server)
    | some bucket => do
      setNextTool (some bucket) count tool
      return (true, server.setBucket hash (some bucket) (count + 1))

def mcpServerAddTool (server : Server) : Option Addr → Prog Block (Bool × Server)
  | none => return (false, server)
  | some tool => do
    match ← mcpServerFindToolByHash server (← toolName tool) with
    | some _ => return (false, server)
    | none => do
      let (ok, server) ← mcpServerReserveTools server (server.count + 1)
      if ok then do
        setNextTool server.tools server.count tool
        let added ← mcpServerAddToolToHash { server with count := server.count + 1 } tool
        return (true, added.2)
      else return (false, server)

def mcpServerDoToolCall (L : CJsonLib) (callbacks : Callbacks) (server : Server) (id : Int32)
    (name : CStr) (arguments : Option CJson) : Prog Block (Option CStr) := do
  match ← mcpServerFindToolByHash server name with
  | none => mcpServerReplyError L id (message128 (lit "Unknown tool: " ++ name))
  | some tool => callFound L callbacks tool id arguments

/-! ## What the server owns -/

/-- A tool with its address. -/
abbrev Registration := Addr × ToolValue

/-- The registered tools, and which of them each bucket has. -/
structure Registered where
  tools : List Registration
  toolHash : Fin 256 → List Registration
  held : ∀ hash, ∀ t ∈ toolHash hash, t ∈ tools

def toolsAt (tools : List Registration) : Assertion Block :=
  (tools.map fun t => toolHandle t.1 t.2).prod

/-- The array of tools, which is not there before the first one. -/
def toolsBlock (capacity : ℕ) (tools : List Registration) : Option Block :=
  if capacity = 0 then none else some (.tools capacity (tools.map Prod.fst))

/-- A bucket, which is not there before its first tool and is always full. -/
def bucketBlock (tools : List Registration) : Option Block :=
  if tools = [] then none else some (.tools tools.length (tools.map Prod.fst))

def bucketsAt (server : Server) (g : Registered) : Assertion Block :=
  ∏ hash, optionally (server.toolHash hash) (bucketBlock (g.toolHash hash))

/-- The fields of the server count what is registered. -/
structure Counts (server : Server) (g : Registered) : Prop where
  count : server.count = g.tools.length
  room : server.count ≤ server.capacity
  first : g.tools = [] → server.capacity = 0
  buckets : ∀ hash, server.toolHashCount hash = (g.toolHash hash).length

def serverAt (server : Server) (g : Registered) : Assertion Block :=
  fact (Counts server g) * (optionally server.tools (toolsBlock server.capacity g.tools) *
    (bucketsAt server g * toolsAt g.tools))

/-! ## Reading -/

theorem toolsAt_focus {tools : List Registration} {t : Registration} (h : t ∈ tools) :
    ∃ K, toolsAt tools = toolHandle t.1 t.2 * K := by
  obtain ⟨before, after, rfl⟩ := List.append_of_mem h
  refine ⟨toolsAt before * toolsAt after, ?_⟩
  simp only [toolsAt, List.map_append, List.map_cons, List.prod_append, List.prod_cons]
  exact mul_left_comm _ _ _

theorem toolName_triple (a : Addr) (t : ToolValue) :
    Triple (toolHandle a t) (toolName a) fun r => fact (r = t.name) * toolHandle a t := by
  refine Triple.exists_pre fun tool => Triple.exists_pre fun wrapper => ?_
  refine Triple.fact_pre fun hfields => ?_
  refine Triple.call (readTool_triple a tool) _ rfl fun found => ?_
  rw [mul_assoc]
  refine Triple.fact_pre fun hfound => ?_
  subst hfound
  refine Triple.call (readString_triple found.name (some t.name)) (pointsTo a (.tool found) *
    (pointsTo wrapper (.wrapper t.callback) *
      (stringAt found.description (some t.description) * listAt found.properties t.properties)))
    (by rw [partsAt]; ac_rfl) fun read => ?_
  rw [mul_assoc]
  refine Triple.fact_pre fun hread => ?_
  subst hread
  refine Triple.ret t.name ?_
  rw [fact_of rfl, one_mul]
  refine le_iSup_of_le found (le_iSup_of_le wrapper ?_)
  rw [fact_of hfields, one_mul, partsAt]
  exact le_of_eq (by ac_rfl)

theorem readTools_triple (a : Addr) (capacity : ℕ) (tools : List Addr) :
    Triple (pointsTo a (.tools capacity tools)) (readTools (some a)) fun r =>
      fact (r = (capacity, tools)) * pointsTo a (.tools capacity tools) := by
  refine Triple.load (mul_one _).symm (Triple.ret _ ?_)
  rw [fact_of rfl, one_mul, mul_one]

theorem getTool_triple {bucket : Option Addr} {tools : List Registration} {i : ℕ}
    {t : Registration} (ht : tools[i]? = some t) :
    Triple (optionally bucket (bucketBlock tools)) (getTool bucket i) fun r =>
      fact (r = t.1) * optionally bucket (bucketBlock tools) := by
  have hne : tools ≠ [] := by
    rintro rfl
    simp at ht
  rw [bucketBlock, if_neg hne]
  cases bucket with
  | none => exact triple_bot
  | some a =>
    refine Triple.bind (readTools_triple a _ _) fun r => Triple.fact_pre fun hr => ?_
    subst hr
    simp only [List.getElem?_map, ht, Option.map_some]
    refine Triple.ret t.1 ?_
    rw [fact_of rfl, one_mul]
    exact le_rfl

/-- **Run.** From the entry `i` on, the first tool of that name. -/
theorem findInBucket_triple (bucket : Option Addr) {tools rest all : List Registration}
    (hheld : ∀ t ∈ tools, t ∈ all) (name : CStr) (i : ℕ)
    (hrest : tools.drop i = rest) :
    Triple (optionally bucket (bucketBlock tools) * toolsAt all)
      (findInBucket bucket name i rest.length) fun r =>
        fact (r = (rest.find? fun t => t.2.name == name).map Prod.fst) *
          (optionally bucket (bucketBlock tools) * toolsAt all) := by
  induction rest generalizing i with
  | nil =>
    refine Triple.ret none ?_
    rw [List.find?_nil, Option.map_none, fact_of rfl, one_mul]
  | cons t rest ih =>
    have ht : tools[i]? = some t := by
      rw [← List.head?_drop, hrest]
      rfl
    have hnext : tools.drop (i + 1) = rest := by
      rw [← List.tail_drop, hrest]
      rfl
    obtain ⟨K, hfocus⟩ := toolsAt_focus (hheld t (List.mem_of_getElem? ht))
    refine Triple.call (getTool_triple ht) _ rfl fun got => ?_
    rw [mul_assoc]
    refine Triple.fact_pre fun hgot => ?_
    subst hgot
    refine Triple.call (toolName_triple t.1 t.2) (optionally bucket (bucketBlock tools) * K)
      (by rw [hfocus]; ac_rfl) fun read => ?_
    rw [mul_assoc]
    refine Triple.fact_pre fun hread => ?_
    subst hread
    have hback : toolHandle t.1 t.2 * (optionally bucket (bucketBlock tools) * K) =
        optionally bucket (bucketBlock tools) * toolsAt all := by
      rw [hfocus]
      ac_rfl
    rw [hback]
    by_cases hname : t.2.name = name
    · rw [if_pos hname]
      refine Triple.ret (some t.1) ?_
      rw [List.find?_cons_of_pos (by simpa using hname), Option.map_some, fact_of rfl, one_mul]
    · rw [if_neg hname, List.find?_cons_of_neg (by simpa using hname)]
      exact ih (i + 1) hnext

/-- The tool that a name leads to. -/
def Registered.find (g : Registered) (name : CStr) : Option Registration :=
  (g.toolHash (toolNameHash name)).find? fun t => t.2.name == name

theorem Registered.find_mem {g : Registered} {name : CStr} {t : Registration}
    (h : g.find name = some t) : t ∈ g.tools :=
  g.held _ t (List.mem_of_find?_eq_some h)

theorem bucketsAt_focus (server : Server) (g : Registered) (hash : Fin 256) :
    ∃ K, bucketsAt server g = optionally (server.toolHash hash) (bucketBlock (g.toolHash hash)) * K ∧
      ∀ (server' : Server) (g' : Registered),
        (∀ other ≠ hash, server'.toolHash other = server.toolHash other ∧
          g'.toolHash other = g.toolHash other) →
        bucketsAt server' g' =
          optionally (server'.toolHash hash) (bucketBlock (g'.toolHash hash)) * K := by
  refine ⟨_, Finset.prod_eq_mul_prod_sdiff_singleton_of_mem (Finset.mem_univ hash) _,
    fun server' g' hother => ?_⟩
  rw [bucketsAt, Finset.prod_eq_mul_prod_sdiff_singleton_of_mem (Finset.mem_univ hash)]
  refine congrArg _ (Finset.prod_congr rfl fun other hmem => ?_)
  have hne : other ≠ hash := by simpa using hmem
  rw [(hother other hne).1, (hother other hne).2]

theorem mcpServerFindToolByHash_triple (server : Server) (g : Registered) (name : CStr) :
    Triple (serverAt server g) (mcpServerFindToolByHash server name) fun r =>
      fact (r = (g.find name).map Prod.fst) * serverAt server g := by
  refine Triple.fact_pre fun hcounts => ?_
  obtain ⟨K, hfocus, -⟩ := bucketsAt_focus server g (toolNameHash name)
  have hfind := findInBucket_triple (server.toolHash (toolNameHash name))
    (g.held (toolNameHash name)) name 0 rfl
  rw [List.drop_zero, ← hcounts.buckets] at hfind
  refine Triple.last hfind (optionally server.tools (toolsBlock server.capacity g.tools) * K)
    (by rw [hfocus]; ac_rfl) fun r => ?_
  rw [mul_assoc]
  refine mul_le_mul_right (le_of_eq ?_) _
  rw [serverAt, fact_of hcounts, one_mul, hfocus]
  ac_rfl

/-! ## Registration -/

theorem setNextTool_triple (a : Addr) (capacity : ℕ) (tools : List Addr)
    (hroom : tools.length < capacity) (tool : Addr) :
    Triple (pointsTo a (.tools capacity tools)) (setNextTool (some a) tools.length tool) fun _ =>
      pointsTo a (.tools capacity (tools ++ [tool])) := by
  refine Triple.bind (readTools_triple a capacity tools) fun r => Triple.fact_pre fun hr => ?_
  subst hr
  simp only [hroom, and_self, if_true]
  exact store_triple a _ _

/-- The tool is found by its name from now on. -/
def Registered.index (g : Registered) (t : Registration) (h : t ∈ g.tools) : Registered where
  tools := g.tools
  toolHash := Function.update g.toolHash (toolNameHash t.2.name)
    (g.toolHash (toolNameHash t.2.name) ++ [t])
  held hash other hmem := by
    by_cases hhash : hash = toolNameHash t.2.name
    · subst hhash
      rw [Function.update_self, List.mem_append, List.mem_singleton] at hmem
      rcases hmem with hold | rfl
      · exact g.held _ other hold
      · exact h
    · rw [Function.update_of_ne hhash] at hmem
      exact g.held hash other hmem

/-- What becomes of the registered tools when the bucket gets its memory, or does not. -/
def Registered.indexed (g : Registered) (memory : Bool) (t : Registration) (h : t ∈ g.tools) :
    Registered :=
  if memory then g.index t h else g

/-- Only the buckets of the server have changed. -/
structure SameArray (server server' : Server) : Prop where
  tools : server'.tools = server.tools
  count : server'.count = server.count
  capacity : server'.capacity = server.capacity

/-- The buckets after an attempt to index the tool. -/
def indexedAt (server : Server) (g : Registered) (t : Registration) (h : t ∈ g.tools)
    (r : Bool × Server) : Assertion Block :=
  ⨆ memory, fact (SameArray server r.2 ∧ ∀ hash, r.2.toolHashCount hash =
      ((g.indexed memory t h).toolHash hash).length) *
    (bucketsAt r.2 (g.indexed memory t h) * toolsAt g.tools)

theorem mcpServerAddToolToHash_triple (server : Server) (g : Registered) (t : Registration)
    (h : t ∈ g.tools)
    (hcounts : ∀ hash, server.toolHashCount hash = (g.toolHash hash).length) :
    Triple (bucketsAt server g * toolsAt g.tools) (mcpServerAddToolToHash server t.1)
      (indexedAt server g t h) := by
  obtain ⟨K, hfocus, hbuckets⟩ := bucketsAt_focus server g (toolNameHash t.2.name)
  obtain ⟨K', htools⟩ := toolsAt_focus h
  refine Triple.call (toolName_triple t.1 t.2) (bucketsAt server g * K')
    (by rw [htools]; ac_rfl) fun name => ?_
  rw [mul_assoc]
  refine Triple.fact_pre fun hname => ?_
  subst hname
  have howned : toolHandle t.1 t.2 * (bucketsAt server g * K') =
      optionally (server.toolHash (toolNameHash t.2.name))
        (bucketBlock (g.toolHash (toolNameHash t.2.name))) * (K * toolsAt g.tools) := by
    rw [hfocus, htools]
    ac_rfl
  rw [howned]
  -- The bucket is as it was, or it has the new tool at its end.
  have hkept : optionally (server.toolHash (toolNameHash t.2.name))
      (bucketBlock (g.toolHash (toolNameHash t.2.name))) * (K * toolsAt g.tools) ≤
        indexedAt server g t h (false, server) := by
    refine le_iSup_of_le false ?_
    rw [fact_of ⟨⟨rfl, rfl, rfl⟩, hcounts⟩, one_mul, ← mul_assoc, ← hfocus]
    exact le_rfl
  have hindexed (b : Addr) : pointsTo b (.tools ((g.toolHash (toolNameHash t.2.name)).length + 1)
      ((g.toolHash (toolNameHash t.2.name)).map Prod.fst ++ [t.1])) * (K * toolsAt g.tools) ≤
        indexedAt server g t h (true, server.setBucket (toolNameHash t.2.name) (some b)
          ((g.toolHash (toolNameHash t.2.name)).length + 1)) := by
    refine le_iSup_of_le true ?_
    rw [fact_of, one_mul, ← mul_assoc, hbuckets]
    · refine mul_le_mul_left (mul_le_mul_left (le_of_eq ?_) K) _
      simp [Registered.indexed, Registered.index, bucketBlock, optionally, Server.setBucket]
    · intro other hne
      simp [Registered.indexed, Registered.index, Server.setBucket, Function.update_of_ne hne]
    · refine ⟨⟨rfl, rfl, rfl⟩, fun hash => ?_⟩
      by_cases hhash : hash = toolNameHash t.2.name
      · subst hhash
        simp [Registered.indexed, Registered.index, Server.setBucket]
      · simp [Registered.indexed, Registered.index, Server.setBucket, Function.update_of_ne hhash,
          hcounts hash]
  simp only [hcounts]
  by_cases hempty : g.toolHash (toolNameHash t.2.name) = []
  · have hzero : server.toolHashCount (toolNameHash t.2.name) = 0 := by rw [hcounts, hempty]; rfl
    cases hbucket : server.toolHash (toolNameHash t.2.name) with
    | some a => exact triple_bot.pre (by simp [hempty, bucketBlock, optionally])
    | none =>
      rw [if_pos (by simp [hempty])]
      refine Triple.call (malloc_triple (Block.tools 1 [])) _ (one_mul _).symm fun r => ?_
      cases r with
      | none =>
        refine Triple.ret _ ?_
        have hsame : server.setBucket (toolNameHash t.2.name) none 0 = server := by
          unfold Server.setBucket
          rw [← hbucket, ← hzero, Function.update_eq_self, Function.update_eq_self]
        rw [hbucket] at hkept
        rw [one_mul, hsame]
        exact hkept
      | some b =>
        refine Triple.call (setNextTool_triple b 1 [] Nat.zero_lt_one t.1) _ rfl fun _ => ?_
        refine Triple.ret _ ?_
        have hdone := hindexed b
        rw [hempty] at hdone ⊢
        refine le_trans (le_of_eq ?_) hdone
        simp [bucketBlock, optionally]
  · rw [if_neg (by simpa using hempty)]
    refine Triple.call (realloc_triple (server.toolHash (toolNameHash t.2.name))
      (bucketBlock (g.toolHash (toolNameHash t.2.name))) _) _ rfl fun r => ?_
    cases r with
    | none => exact Triple.ret _ hkept
    | some b =>
      have hgrown : growTools ((g.toolHash (toolNameHash t.2.name)).length + 1)
          (bucketBlock (g.toolHash (toolNameHash t.2.name))) =
            .tools ((g.toolHash (toolNameHash t.2.name)).length + 1)
              ((g.toolHash (toolNameHash t.2.name)).map Prod.fst) := by
        rw [bucketBlock, if_neg hempty]
        rfl
      dsimp only
      rw [hgrown]
      have hnext := setNextTool_triple b ((g.toolHash (toolNameHash t.2.name)).length + 1)
        ((g.toolHash (toolNameHash t.2.name)).map Prod.fst)
        (by rw [List.length_map]; exact Nat.lt_succ_self _) t.1
      rw [List.length_map] at hnext
      refine Triple.call hnext _ rfl fun _ => ?_
      exact Triple.ret _ (hindexed b)

/-! ## The registry on values -/

/-- What the function of a client makes of its arguments. -/
abbrev Behaviour (W : Type) := Option ℕ → List McpProperty → W → McpReturnValue × W

def ToolValue.mcp (behaviour : Behaviour W) (t : ToolValue) : McpTool W where
  name := t.name
  description := t.description
  properties := t.properties.items
  callback := some (behaviour t.callback)
  userOnly := t.userOnly

@[simp]
theorem ToolValue.mcp_name (behaviour : Behaviour W) (t : ToolValue) :
    (t.mcp behaviour).name = t.name := rfl

/-- The server without its pointers. -/
def Registered.server (behaviour : Behaviour W) (serverName : CStr) (capacity : ℕ)
    (g : Registered) : McpServer W where
  tools := g.tools.map fun t => t.2.mcp behaviour
  capacity
  serverName
  toolHash hash := (g.toolHash hash).map fun t => t.2.mcp behaviour

theorem Registered.server_find (behaviour : Behaviour W) (serverName : CStr) (capacity : ℕ)
    (g : Registered) (name : CStr) :
    MlinkDevice.mcpServerFindToolByHash (g.server behaviour serverName capacity) name =
      (g.find name).map fun t => t.2.mcp behaviour :=
  List.find?_map ..

/-- The tools after a registration that gets as far as the array. -/
def Registered.add (g : Registered) (memory : Bool) (t : Registration) : Registered :=
  Registered.indexed ⟨g.tools ++ [t], g.toolHash, fun hash other h =>
    List.mem_append_left _ (g.held hash other h)⟩ memory t
      (List.mem_append_right _ List.mem_cons_self)

theorem Registered.add_tools (g : Registered) (memory : Bool) (t : Registration) :
    (g.add memory t).tools = g.tools ++ [t] := by
  cases memory <;> rfl

theorem Registered.server_add (behaviour : Behaviour W) (serverName : CStr) (capacity : ℕ)
    (g : Registered) (memory : Bool) (t : Registration) :
    (MlinkDevice.mcpServerAddToolToHash memory
      { g.server behaviour serverName capacity with
        tools := (g.server behaviour serverName capacity).tools ++ [t.2.mcp behaviour] }
      (t.2.mcp behaviour)).2 = (g.add memory t).server behaviour serverName capacity := by
  cases memory with
  | false =>
    simp [MlinkDevice.mcpServerAddToolToHash, Registered.server, Registered.add,
      Registered.indexed]
  | true =>
    simp only [MlinkDevice.mcpServerAddToolToHash, Registered.server, Registered.add,
      Registered.indexed, Registered.index, if_true, List.map_append, List.map_cons, List.map_nil,
      McpServer.mk.injEq, true_and]
    funext hash
    by_cases hhash : hash = toolNameHash t.2.name
    · subst hhash
      simp [ToolValue.mcp]
    · rw [ToolValue.mcp_name, Function.update_of_ne hhash, Function.update_of_ne hhash]

/-! ## Registration of a tool -/

/-- A reserve that ends like that, which is the one on values when its allocation, if it makes
one, ends like `memory`. -/
structure ReservesTools (server : Server) (required : ℕ) (memory : Bool) (r : Bool × Server) :
    Prop where
  count : r.2.count = server.count
  toolHash : r.2.toolHash = server.toolHash
  toolHashCount : r.2.toolHashCount = server.toolHashCount
  room : server.capacity ≤ r.2.capacity
  refused : r.1 = false → r.2.capacity = server.capacity
  enough : r.1 = true → required ≤ r.2.capacity
  value : ∀ {W : Type} (v : McpServer W), v.capacity = server.capacity →
    MlinkDevice.mcpServerReserveTools memory v required = (r.1, { v with capacity := r.2.capacity })

theorem growTools_toolsBlock {tools : List Registration} {capacity : ℕ}
    (hroom : tools.length ≤ capacity) (capacity' : ℕ) :
    growTools capacity' (toolsBlock capacity tools) = .tools capacity' (tools.map Prod.fst) := by
  unfold toolsBlock
  split
  · next hzero =>
    have hnil : tools = [] := List.length_eq_zero_iff.mp (by omega)
    rw [hnil]
    rfl
  · rfl

theorem mcpServerReserveTools_triple (server : Server) (tools : List Registration)
    (hroom : tools.length ≤ server.capacity) (required : ℕ) :
    Triple (optionally server.tools (toolsBlock server.capacity tools))
      (mcpServerReserveTools server required) fun r => ⨆ memory,
        fact (ReservesTools server required memory r) *
          optionally r.2.tools (toolsBlock r.2.capacity tools) := by
  unfold mcpServerReserveTools
  by_cases henough : required ≤ server.capacity
  · rw [if_pos henough]
    refine Triple.ret _ (le_iSup_of_le true ?_)
    rw [fact_of, one_mul]
    refine ⟨rfl, rfl, rfl, le_rfl, Bool.noConfusion, fun _ => henough, fun v hv => ?_⟩
    rw [MlinkDevice.mcpServerReserveTools, if_pos (by rwa [hv]), ← hv]
  · rw [if_neg henough]
    refine Triple.bind (realloc_triple server.tools (toolsBlock server.capacity tools) _) fun r => ?_
    cases r with
    | none =>
      refine Triple.ret _ (le_iSup_of_le false ?_)
      rw [fact_of, one_mul]
      refine ⟨rfl, rfl, rfl, le_rfl, fun _ => rfl, Bool.noConfusion, fun v hv => ?_⟩
      rw [MlinkDevice.mcpServerReserveTools, if_neg (by rwa [hv]), ← hv]
      rfl
    | some a =>
      have hlarge := le_doubleUntil required
        (if server.capacity = 0 then 4 else server.capacity * 2) (by split <;> omega)
      refine Triple.ret _ (le_iSup_of_le true ?_)
      rw [fact_of, one_mul]
      · dsimp only
        generalize doubleUntil required (if server.capacity = 0 then 4 else server.capacity * 2) =
          capacity at hlarge ⊢
        rw [growTools_toolsBlock hroom, toolsBlock, if_neg (by omega)]
        exact le_rfl
      · refine ⟨rfl, rfl, rfl, le_trans (by omega) hlarge, Bool.noConfusion, fun _ => hlarge,
          fun v hv => ?_⟩
        rw [MlinkDevice.mcpServerReserveTools, if_neg (by rwa [hv]), ← hv]
        rfl

theorem bucketsAt_congr {server server' : Server} {g : Registered}
    (h : server'.toolHash = server.toolHash) : bucketsAt server' g = bucketsAt server g := by
  rw [bucketsAt, h]
  rfl

theorem serverAt_of {server : Server} {g : Registered} (h : Counts server g) :
    optionally server.tools (toolsBlock server.capacity g.tools) *
      (bucketsAt server g * toolsAt g.tools) ≤ serverAt server g := by
  rw [serverAt, fact_of h, one_mul]

/-- What is registered after an attempt. -/
def Registered.after (g : Registered) (ok memory : Bool) (t : Registration) : Registered :=
  if ok then g.add memory t else g

/-- The attempt ends like the one on values, for some outcome of its allocations. -/
def Registers (server : Server) (g : Registered) (t : Registration) (memory : AddToolMemory)
    (r : Bool × Server) : Prop :=
  ∀ {W : Type} (behaviour : Behaviour W) (serverName : CStr),
    MlinkDevice.mcpServerAddTool memory (g.server behaviour serverName server.capacity)
      (t.2.mcp behaviour) =
        (r.1, (g.after r.1 memory.bucket t).server behaviour serverName r.2.capacity)

theorem mcpServerAddTool_triple (server : Server) (g : Registered) (t : Registration) :
    Triple (serverAt server g * toolHandle t.1 t.2) (mcpServerAddTool server (some t.1)) fun r =>
      ⨆ memory, fact (Registers server g t memory r) *
        (serverAt r.2 (g.after r.1 memory.bucket t) *
          if r.1 then 1 else toolHandle t.1 t.2) := by
  refine Triple.call (toolName_triple t.1 t.2) (serverAt server g) (mul_comm _ _) fun name => ?_
  rw [mul_assoc]
  refine Triple.fact_pre fun hname => ?_
  subst hname
  refine Triple.call (mcpServerFindToolByHash_triple server g t.2.name) _ (mul_comm _ _)
    fun found => ?_
  rw [mul_assoc]
  refine Triple.fact_pre fun hfound => ?_
  subst hfound
  cases hfind : g.find t.2.name with
  | some other =>
    refine Triple.ret _ (le_iSup_of_le .plenty ?_)
    rw [fact_of, one_mul]
    · exact le_rfl
    · intro W behaviour serverName
      rw [MlinkDevice.mcpServerAddTool, ToolValue.mcp_name, Registered.server_find, hfind]
      rfl
  | none =>
    rw [serverAt, mul_assoc]
    refine Triple.fact_pre fun hcounts => ?_
    refine Triple.call (mcpServerReserveTools_triple server g.tools
      (hcounts.count ▸ hcounts.room) (server.count + 1)) (bucketsAt server g * toolsAt g.tools *
        toolHandle t.1 t.2) (by ac_rfl) fun r => ?_
    rw [Quantale.iSup_mul_distrib]
    refine Triple.exists_pre fun memory => ?_
    rw [mul_assoc]
    refine Triple.fact_pre fun hreserves => ?_
    have hvalue (bucket : Bool) {W : Type} (behaviour : Behaviour W) (serverName : CStr) :
        MlinkDevice.mcpServerAddTool ⟨memory, bucket⟩
          (g.server behaviour serverName server.capacity) (t.2.mcp behaviour) =
            if r.1 then (true, (g.add bucket t).server behaviour serverName r.2.capacity)
            else (false, g.server behaviour serverName r.2.capacity) := by
      have hreserve := hreserves.value (g.server behaviour serverName server.capacity) rfl
      rw [hcounts.count] at hreserve
      rw [MlinkDevice.mcpServerAddTool, ToolValue.mcp_name, Registered.server_find, hfind]
      dsimp only [Option.map_none]
      rw [show (g.server behaviour serverName server.capacity).count = g.tools.length from
        List.length_map .., hreserve, ← Registered.server_add]
      cases r.1 <;> rfl
    obtain ⟨ok, reserved⟩ := r
    cases ok with
    | false =>
      refine Triple.ret (false, reserved) (le_iSup_of_le ⟨memory, true⟩ ?_)
      rw [fact_of, one_mul]
      · refine le_trans (le_of_eq ?_) (mul_le_mul_left (serverAt_of (g := g) ⟨?_, ?_, ?_, ?_⟩) _)
        · rw [bucketsAt_congr hreserves.toolHash, if_neg Bool.false_ne_true]
          ac_rfl
        · rw [hreserves.count, hcounts.count]
        · exact hreserves.count ▸ hcounts.room.trans hreserves.room
        · exact fun hnil => (hreserves.refused rfl).trans (hcounts.first hnil)
        · rw [hreserves.toolHashCount]
          exact hcounts.buckets
      · intro W behaviour serverName
        rw [hvalue]
        rfl
    | true =>
      have hlarge : server.count + 1 ≤ reserved.capacity := hreserves.enough rfl
      rw [toolsBlock, if_neg (by dsimp only; omega)]
      cases hpointer : reserved.tools with
      | none => exact triple_bot.pre (by simp [optionally])
      | some a =>
        have hcount : reserved.count = (g.tools.map Prod.fst).length := by
          rw [List.length_map, ← hcounts.count]
          exact hreserves.count
        have hset := setNextTool_triple a reserved.capacity (g.tools.map Prod.fst)
          (by rw [List.length_map, ← hcounts.count]; exact hlarge) t.1
        rw [← hcount, ← hpointer] at hset
        refine Triple.call hset _ rfl fun _ => ?_
        let g' : Registered := ⟨g.tools ++ [t], g.toolHash, fun hash other h =>
          List.mem_append_left _ (g.held hash other h)⟩
        let server' : Server := { reserved with count := reserved.count + 1 }
        have hbuckets : bucketsAt server' g' = bucketsAt server g :=
          (show bucketsAt server' g' = bucketsAt reserved g from rfl).trans
            (bucketsAt_congr hreserves.toolHash)
        have htools : toolsAt g'.tools = toolsAt g.tools * toolHandle t.1 t.2 := by
          simp [toolsAt, g']
        have hbucketCounts (hash : Fin 256) :
            server'.toolHashCount hash = (g'.toolHash hash).length :=
          (congrFun hreserves.toolHashCount hash).trans (hcounts.buckets hash)
        refine Triple.call (mcpServerAddToolToHash_triple server' g' t
          (List.mem_append_right _ List.mem_cons_self) hbucketCounts)
          (pointsTo a (.tools reserved.capacity (g.tools.map Prod.fst ++ [t.1])))
          (by rw [hbuckets, htools]; ac_rfl) fun added => ?_
        rw [indexedAt, Quantale.iSup_mul_distrib]
        refine Triple.exists_pre fun bucket => ?_
        rw [mul_assoc]
        refine Triple.fact_pre fun hadded => ?_
        obtain ⟨hsame, hindexed⟩ := hadded
        refine Triple.ret (true, added.2) (le_iSup_of_le ⟨memory, bucket⟩ ?_)
        rw [fact_of, one_mul, if_pos rfl, mul_one]
        · refine le_trans (le_of_eq ?_) (serverAt_of (g := g.add bucket t)
            ⟨?_, ?_, fun hnil => ?_, hindexed⟩)
          · rw [g.add_tools, hsame.tools, hsame.capacity, show server'.tools = some a from hpointer,
              toolsBlock, if_neg (show ¬ reserved.capacity = 0 by omega), List.map_append]
            exact mul_comm _ _
          · rw [hsame.count, g.add_tools, List.length_append]
            exact congrArg (· + 1) (hreserves.count.trans hcounts.count)
          · rw [hsame.count, hsame.capacity]
            exact (congrArg (· + 1) hreserves.count).trans_le hlarge
          · rw [g.add_tools] at hnil
            exact absurd hnil (List.append_ne_nil_of_right_ne_nil _ (List.cons_ne_nil _ _))
        · intro W behaviour serverName
          rw [hvalue, if_pos rfl, hsame.capacity]
          rfl

/-! ## Calls -/

/-- What may be the reply to a call of the tool of that name. -/
def Answered (L : CJsonLib) (returns : Returns) (g : Registered) (id : Int32) (name : CStr)
    (arguments : Option CJson) (sent : Option CStr) : Prop :=
  match g.find name with
  | none => Sends L (errorReply id (message128 (lit "Unknown tool: " ++ name))) sent
  | some t => Replied L returns id t.2 arguments sent

theorem mcpServerDoToolCall_triple (L : CJsonLib) {callbacks : Callbacks} {returns : Returns}
    (h : KeepsContract callbacks returns) (server : Server) (g : Registered) (id : Int32)
    (name : CStr) (arguments : Option CJson) :
    Triple (serverAt server g) (mcpServerDoToolCall L callbacks server id name arguments)
      fun sent => fact (Answered L returns g id name arguments sent) * serverAt server g := by
  refine Triple.bind (mcpServerFindToolByHash_triple server g name) fun found => ?_
  refine Triple.fact_pre fun hfound => ?_
  subst hfound
  unfold Answered
  cases hfind : g.find name with
  | none => exact reply_triple L _ _
  | some t =>
    refine Triple.fact_pre fun hcounts => ?_
    obtain ⟨K, htools⟩ := toolsAt_focus (Registered.find_mem hfind)
    refine Triple.last (callFound_triple h t.1 t.2 id arguments)
      (optionally server.tools (toolsBlock server.capacity g.tools) * (bucketsAt server g * K))
      (by rw [htools]; ac_rfl) fun sent => ?_
    rw [mul_assoc]
    refine mul_le_mul_right (le_trans (le_of_eq ?_) (serverAt_of hcounts)) _
    rw [htools]
    ac_rfl

end MlinkDevice.Pointers
