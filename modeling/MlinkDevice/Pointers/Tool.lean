import MlinkDevice.Pointers.PropertyLists

/-!
# Tools and lists of a client

The handles that `mlink.h` gives out: `mlink_property_list_*` of `mcp_property.c` and
`mlink_tool_*` of `mcp_tool.c` and `mlink.c`, over allocated blocks.
-/

open MlinkDevice.Sep MlinkDevice.Sep.Assertion

namespace MlinkDevice.Pointers

variable {α : Type}

/-! ## Lists -/

/-- The list at a handle. `list_count` of NULL is 0. -/
def readList : Option Addr → Prog Block PropertyList
  | none => return {}
  | some a => do
    match ← load a with
    | .list list => return list
    | _ => fault

def mcpPropertyListCreate : Prog Block (Option Addr) := malloc (.list {})

def mcpPropertyListDestroy : Option Addr → Prog Block Unit
  | none => return
  | some a => do
    let list ← readList (some a)
    store a (.list (← mcpPropertyListFree list))
    free (some a)

/-- An adder on a handle, which may be NULL. -/
def mlinkPropertyListAdd (list : Option Addr) (call : AddCall) : Prog Block Bool :=
  match list with
  | none => return false
  | some a => do
    let added ← addCall (← readList (some a)) call
    store a (.list added.2)
    return added.1

/-! ## Tools -/

def readTool (a : Addr) : Prog Block Tool := do
  match ← load a with
  | .tool tool => return tool
  | _ => fault

def mcpToolDestroy : Option Addr → Prog Block Unit
  | none => return
  | some a => do
    let tool ← readTool a
    free tool.name
    free tool.description
    let properties ← mcpPropertyListFree tool.properties
    store a (.tool { tool with properties })
    free (some a)

def mcpToolCreate (name description : Option CStr) (properties : Option Addr)
    (callback : Option Callback) (userCtx : Option Addr) (userOnly : Bool) :
    Prog Block (Option Addr) := do
  match ← malloc (.tool {}) with
  | none => return none
  | some tool => do
    let name ← utilsStrdup name
    let description ← utilsStrdup description
    let properties ← mcpPropertyListClone (← readList properties)
    store tool (.tool { name, description, properties, callback, userCtx, userOnly })
    if name.isNone || description.isNone then do
      mcpToolDestroy (some tool)
      return none
    else return some tool

def mlinkToolCreate (name description : Option CStr) (properties : Option Addr)
    (callback : Option ℕ) (userOnly : Bool) : Prog Block (Option Addr) := do
  match ← malloc (.wrapper callback) with
  | none => return none
  | some wrapper => do
    match ← mcpToolCreate name description properties (some .wrapper) (some wrapper) userOnly with
    | none => do
      free (some wrapper)
      return none
    | some tool => return some tool

def mlinkToolDestroy : Option Addr → Prog Block Unit
  | none => return
  | some a => do
    let tool ← readTool a
    free tool.userCtx
    mcpToolDestroy (some a)

/-! ## What a handle owns -/

/-- The handle of a list. -/
def listHandle (a : Addr) (l : Copying.PropertyList) : Assertion Block :=
  ⨆ list, pointsTo a (.list list) * listAt list l

/-- The strings and the properties of a tool. -/
def partsAt (tool : Tool) (name description : Option CStr) (l : Copying.PropertyList) :
    Assertion Block :=
  stringAt tool.name name * (stringAt tool.description description * listAt tool.properties l)

/-- What a tool of a client says, whatever its pointers. -/
structure ToolValue where
  name : CStr
  description : CStr
  properties : Copying.PropertyList
  callback : Option ℕ
  userOnly : Bool

/-- The handle of a tool that `mlink_tool_create` has made. -/
def toolHandle (a : Addr) (t : ToolValue) : Assertion Block :=
  ⨆ tool : Tool, ⨆ wrapper : Addr,
    fact (tool.callback = some .wrapper ∧ tool.userCtx = some wrapper ∧
      tool.userOnly = t.userOnly) *
        (pointsTo a (.tool tool) * (pointsTo wrapper (.wrapper t.callback) *
          partsAt tool (some t.name) (some t.description) t.properties))

/-! ## Handles of lists -/

theorem readList_triple (a : Addr) (list : PropertyList) :
    Triple (pointsTo a (.list list)) (readList (some a)) fun r =>
      fact (r = list) * pointsTo a (.list list) := by
  refine Triple.load (mul_one _).symm (Triple.ret list ?_)
  rw [fact_of rfl, one_mul, mul_one]

theorem mcpPropertyListCreate_triple : Triple 1 mcpPropertyListCreate fun r => match r with
    | none => 1
    | some a => listHandle a {} := by
  refine (malloc_triple (Block.list {})).post fun r => ?_
  cases r with
  | none => exact le_rfl
  | some a => exact le_iSup_of_le {} (by rw [listAt_empty, mul_one])

theorem mcpPropertyListDestroy_triple (a : Addr) (l : Copying.PropertyList) :
    Triple (listHandle a l) (mcpPropertyListDestroy (some a)) fun _ => 1 := by
  refine Triple.exists_pre fun list => ?_
  refine Triple.call (readList_triple a list) _ rfl fun r => ?_
  rw [mul_assoc]
  refine Triple.fact_pre fun hr => ?_
  subst hr
  refine Triple.call (mcpPropertyListFree_triple r l) _ (mul_comm _ _) fun freed => ?_
  refine Triple.fact_pre fun _ => ?_
  refine Triple.bind (store_triple a _ (Block.list freed)) fun _ => ?_
  exact free_triple a _

theorem mlinkPropertyListAdd_triple (a : Addr) (l : Copying.PropertyList) (call : AddCall) :
    Triple (listHandle a l) (mlinkPropertyListAdd (some a) call) fun ok =>
      ⨆ memory, fact (ok = (Copying.ListCall.apply ⟨true, memory, call⟩ l).1) *
        listHandle a (Copying.ListCall.apply ⟨true, memory, call⟩ l).2 := by
  refine Triple.exists_pre fun list => ?_
  refine Triple.call (readList_triple a list) _ rfl fun r => ?_
  rw [mul_assoc]
  refine Triple.fact_pre fun hr => ?_
  subst hr
  refine Triple.call (addCall_triple r l call) _ (mul_comm _ _) fun added => ?_
  rw [addedAt, Quantale.iSup_mul_distrib]
  refine Triple.exists_pre fun memory => ?_
  rw [mul_assoc]
  refine Triple.fact_pre fun hok => ?_
  refine Triple.call (store_triple a _ (Block.list added.2)) _ (mul_comm _ _) fun _ => ?_
  refine Triple.ret added.1 (le_iSup_of_le memory ?_)
  rw [fact_of hok, one_mul]
  exact le_iSup_of_le added.2 le_rfl

/-! ## Handles of tools -/

theorem readTool_triple (a : Addr) (tool : Tool) :
    Triple (pointsTo a (.tool tool)) (readTool a) fun r =>
      fact (r = tool) * pointsTo a (.tool tool) := by
  refine Triple.load (mul_one _).symm (Triple.ret tool ?_)
  rw [fact_of rfl, one_mul, mul_one]

theorem mcpToolDestroy_triple (a : Addr) (tool : Tool) (name description : Option CStr)
    (l : Copying.PropertyList) :
    Triple (pointsTo a (.tool tool) * partsAt tool name description l) (mcpToolDestroy (some a))
      fun _ => 1 := by
  refine Triple.call (readTool_triple a tool) _ rfl fun r => ?_
  rw [mul_assoc]
  refine Triple.fact_pre fun hr => ?_
  subst hr
  refine Triple.call (free_stringAt r.name name) (pointsTo a (.tool r) *
    (stringAt r.description description * listAt r.properties l))
    (by rw [partsAt]; ac_rfl) fun _ => ?_
  rw [one_mul]
  refine Triple.call (free_stringAt r.description description) (pointsTo a (.tool r) *
    listAt r.properties l) (by ac_rfl) fun _ => ?_
  rw [one_mul]
  refine Triple.call (mcpPropertyListFree_triple r.properties l) _ (mul_comm _ _) fun freed => ?_
  refine Triple.fact_pre fun _ => ?_
  exact Triple.bind (store_triple a _ _) fun _ => free_triple a _

theorem mlinkToolDestroy_triple (a : Addr) (t : ToolValue) :
    Triple (toolHandle a t) (mlinkToolDestroy (some a)) fun _ => 1 := by
  refine Triple.exists_pre fun tool => Triple.exists_pre fun wrapper => ?_
  refine Triple.fact_pre fun hfields => ?_
  refine Triple.call (readTool_triple a tool) _ rfl fun r => ?_
  rw [mul_assoc]
  refine Triple.fact_pre fun hr => ?_
  subst hr
  rw [hfields.2.1]
  refine Triple.call (free_triple wrapper _) (pointsTo a (.tool r) *
    partsAt r (some t.name) (some t.description) t.properties) (by ac_rfl) fun _ => ?_
  rw [one_mul]
  exact mcpToolDestroy_triple a r (some t.name) (some t.description) t.properties

/-- The list that a tool is created from, where NULL stands for one without properties. -/
def sourceAt (properties : Option Addr) (l : Copying.PropertyList) : Assertion Block :=
  match properties with
  | none => fact (l = {})
  | some a => listHandle a l

theorem readSource_triple (properties : Option Addr) (l : Copying.PropertyList) :
    Triple (sourceAt properties l) (readList properties) fun r => ⨆ K : Assertion Block,
      fact (K * listAt r l ≤ sourceAt properties l) * (K * listAt r l) := by
  cases properties with
  | none =>
    refine Triple.of_fact fun hl => ?_
    subst hl
    have hsource : 1 * listAt {} {} ≤ sourceAt none {} := by
      rw [one_mul, listAt_empty, sourceAt, fact_of rfl]
    refine Triple.ret ({} : PropertyList) (le_iSup_of_le 1 ?_)
    rw [fact_of hsource, one_mul, one_mul, listAt_empty]
  | some a =>
    refine Triple.exists_pre fun list => ?_
    refine Triple.last (readList_triple a list) _ rfl fun r => ?_
    by_cases hr : r = list
    · subst hr
      refine le_iSup_of_le (pointsTo a (.list r)) ?_
      have hsource : pointsTo a (.list r) * listAt r l ≤ sourceAt (some a) l :=
        le_iSup (fun list => pointsTo a (.list list) * listAt list l) r
      rw [fact_of hsource, fact_of rfl, one_mul, one_mul]
    · rw [fact_of_not hr, Quantale.bot_mul, Quantale.bot_mul]
      exact bot_le

theorem stringAt_strdup (a : Addr) (memory : Bool) (s : Option CStr) :
    stringAt (some a) (Copying.utilsStrdup memory s) = fact (s.isSome ∧ memory = true) *
      stringAt (some a) s := by
  cases memory <;> cases s <;> simp [Copying.utilsStrdup, stringAt, optionally, fact_of, fact_of_not]

/-- A new tool has a clone of the properties and duplicates of both strings, or is not there. -/
def createdAt (r : Option Addr) (name description : Option CStr) (l : Copying.PropertyList)
    (callback : Option Callback) (userCtx : Option Addr) (userOnly : Bool) : Assertion Block :=
  match r with
  | none => 1
  | some a => ⨆ tool : Tool, ⨆ memory,
    fact (tool.callback = callback ∧ tool.userCtx = userCtx ∧ tool.userOnly = userOnly ∧
      name.isSome ∧ description.isSome) *
        (pointsTo a (.tool tool) *
          partsAt tool name description (Copying.cloneLoop memory {} l.items))

theorem mcpToolCreate_triple (name description : Option CStr) (properties : Option Addr)
    (l : Copying.PropertyList) (callback : Option Callback) (userCtx : Option Addr)
    (userOnly : Bool) :
    Triple (sourceAt properties l)
      (mcpToolCreate name description properties callback userCtx userOnly) fun r =>
        sourceAt properties l * createdAt r name description l callback userCtx userOnly := by
  refine Triple.call (malloc_triple (Block.tool {})) _ (one_mul _).symm fun r => ?_
  cases r with
  | none => exact Triple.ret none (by rw [one_mul, createdAt, mul_one])
  | some tool =>
    refine Triple.call (utilsStrdup_triple name) _ (one_mul _).symm fun namePointer => ?_
    rw [Quantale.iSup_mul_distrib]
    refine Triple.exists_pre fun nameMemory => ?_
    refine Triple.call (utilsStrdup_triple description) _ (one_mul _).symm fun descPointer => ?_
    rw [Quantale.iSup_mul_distrib]
    refine Triple.exists_pre fun descMemory => ?_
    refine Triple.call (readSource_triple properties l) (stringAt descPointer
      (Copying.utilsStrdup descMemory description) * (stringAt namePointer
        (Copying.utilsStrdup nameMemory name) * pointsTo tool (.tool {}))) (by ac_rfl) fun source => ?_
    rw [Quantale.iSup_mul_distrib]
    refine Triple.exists_pre fun K => ?_
    rw [mul_assoc]
    refine Triple.fact_pre fun hsource => ?_
    refine Triple.call (mcpPropertyListClone_triple source l) (K * (stringAt descPointer
      (Copying.utilsStrdup descMemory description) * (stringAt namePointer
        (Copying.utilsStrdup nameMemory name) * pointsTo tool (.tool {}))))
      (by ac_rfl) fun clone => ?_
    rw [Quantale.iSup_mul_distrib]
    refine Triple.exists_pre fun memory => ?_
    let record : Tool :=
      { name := namePointer, description := descPointer, properties := clone, callback, userCtx,
        userOnly }
    have hparts (name description : Option CStr) :
        partsAt record name description (Copying.cloneLoop memory {} l.items) =
          stringAt namePointer name * (stringAt descPointer description *
            listAt clone (Copying.cloneLoop memory {} l.items)) := rfl
    refine Triple.call (store_triple tool (Block.tool {}) (Block.tool record))
      (K * listAt source l * partsAt record (Copying.utilsStrdup nameMemory name)
        (Copying.utilsStrdup descMemory description) (Copying.cloneLoop memory {} l.items))
      (by rw [hparts]; ac_rfl) fun _ => ?_
    have hdestroy : Triple (pointsTo tool (.tool record) * (K * listAt source l *
        partsAt record (Copying.utilsStrdup nameMemory name)
          (Copying.utilsStrdup descMemory description) (Copying.cloneLoop memory {} l.items)))
        (do mcpToolDestroy (some tool); return none) fun r =>
          sourceAt properties l * createdAt r name description l callback userCtx userOnly := by
      refine Triple.call (mcpToolDestroy_triple tool record _ _ _) (K * listAt source l)
        (by ac_rfl) fun _ => ?_
      refine Triple.ret none ?_
      rw [one_mul, createdAt, mul_one]
      exact hsource
    cases namePointer with
    | none => exact hdestroy
    | some namePointer =>
      cases descPointer with
      | none => exact hdestroy
      | some descPointer =>
        have hfacts : pointsTo tool (.tool record) * (K * listAt source l *
            partsAt record (Copying.utilsStrdup nameMemory name)
              (Copying.utilsStrdup descMemory description) (Copying.cloneLoop memory {} l.items)) =
            fact (name.isSome ∧ nameMemory = true) * (fact (description.isSome ∧ descMemory = true) *
              (K * listAt source l * (pointsTo tool (.tool record) *
                partsAt record name description (Copying.cloneLoop memory {} l.items)))) := by
          rw [hparts, hparts, stringAt_strdup, stringAt_strdup]
          ac_rfl
        rw [hfacts]
        refine Triple.fact_pre fun hname => Triple.fact_pre fun hdesc => ?_
        refine Triple.ret (some tool) (mul_le_mul' hsource ?_)
        refine le_iSup_of_le record (le_iSup_of_le memory ?_)
        rw [fact_of ⟨rfl, rfl, rfl, hname.1, hdesc.1⟩, one_mul]

theorem mlinkToolCreate_triple (name description : Option CStr) (properties : Option Addr)
    (l : Copying.PropertyList) (callback : Option ℕ) (userOnly : Bool) :
    Triple (sourceAt properties l)
      (mlinkToolCreate name description properties callback userOnly) fun r =>
        sourceAt properties l * match r with
          | none => 1
          | some a => ⨆ name', ⨆ description', ⨆ memory,
            fact (name = some name' ∧ description = some description') *
              toolHandle a ⟨name', description', Copying.cloneLoop memory {} l.items, callback,
                userOnly⟩ := by
  refine Triple.call (malloc_triple (Block.wrapper callback)) _ (one_mul _).symm fun r => ?_
  cases r with
  | none => exact Triple.ret none (by rw [one_mul, mul_one])
  | some wrapper =>
    refine Triple.call (mcpToolCreate_triple name description properties l (some .wrapper)
      (some wrapper) userOnly) _ (mul_comm _ _) fun created => ?_
    cases created with
    | none =>
      refine Triple.call (free_triple wrapper _) (sourceAt properties l)
        (by rw [createdAt]; ac_rfl) fun _ => ?_
      exact Triple.ret none (by rw [one_mul, mul_one])
    | some tool =>
      refine Triple.ret (some tool) ?_
      rw [mul_assoc]
      refine mul_le_mul_right ?_ _
      rw [createdAt, Quantale.iSup_mul_distrib]
      refine iSup_le fun record => ?_
      rw [Quantale.iSup_mul_distrib]
      refine iSup_le fun memory => ?_
      by_cases hfields : record.callback = some .wrapper ∧ record.userCtx = some wrapper ∧
          record.userOnly = userOnly ∧ name.isSome ∧ description.isSome
      · rw [fact_of hfields, one_mul]
        obtain ⟨hcallback, hctx, honly, hname, hdescription⟩ := hfields
        obtain ⟨name', rfl⟩ := Option.isSome_iff_exists.mp hname
        obtain ⟨description', rfl⟩ := Option.isSome_iff_exists.mp hdescription
        refine le_iSup_of_le name' (le_iSup_of_le description' (le_iSup_of_le memory ?_))
        rw [fact_of ⟨rfl, rfl⟩, one_mul]
        refine le_iSup_of_le record (le_iSup_of_le wrapper ?_)
        rw [fact_of ⟨hcallback, hctx, honly⟩, one_mul]
        dsimp only
        exact le_of_eq (by ac_rfl)
      · rw [fact_of_not hfields, Quantale.bot_mul, Quantale.bot_mul]
        exact bot_le

end MlinkDevice.Pointers
