import MlinkDevice.Defaults
import MlinkDevice.Sep.Program

/-!
# Property lists with their pointers

`mcp_property.c` over allocated blocks: who owns the names, the string defaults and the array of
a list, and when each of them is freed. Every function computes what it computes on the values,
for some outcome of its allocations.
-/

open MlinkDevice.Sep MlinkDevice.Sep.Assertion

namespace MlinkDevice.Pointers

/-! ## Data -/

/-- The union `value`, with the pointer to a string. -/
inductive Value where
  | boolean (boolValue : Bool)
  | integer (intValue : Int32)
  | string (stringValue : Option Addr)

/-- The members of `struct mcp_property` that are no pointers and hold none. -/
structure Flags where
  hasDefault : Bool := false
  hasMin : Bool := false
  hasMax : Bool := false
  minValue : Int32 := 0
  maxValue : Int32 := 0

/-- `struct mcp_property`. -/
structure Property extends Flags where
  name : Option Addr := none
  value : Value := .boolean false

/-- `struct mcp_property_list`, where every item has the size of a property. -/
structure PropertyList where
  items : Option Addr := none
  count : ℕ := 0
  capacity : ℕ := 0

/-- The function of a tool: `mlink_callback_wrapper`, or one given to `mcp_tool_create`. -/
inductive Callback where
  | wrapper
  | direct (callback : ℕ)

/-- `struct mcp_tool`. -/
structure Tool where
  name : Option Addr := none
  description : Option Addr := none
  properties : PropertyList := {}
  callback : Option Callback := none
  userCtx : Option Addr := none
  userOnly : Bool := false

/-- What an allocated block holds. Of an array these are the entries in use, and a `cJSON` tree
counts as one block. -/
inductive Block where
  | string (s : CStr)
  | items (capacity : ℕ) (items : List Property)
  | list (list : PropertyList)
  | tool (tool : Tool)
  | tools (capacity : ℕ) (tools : List Addr)
  | wrapper (callback : Option ℕ)
  | image (mimeType encodedData : Option Addr)
  | json (json : CJson)

/-! ## Strings and items -/

def utilsStrdup : Option CStr → Prog Block (Option Addr)
  | none => return none
  | some s => malloc (.string s)

/-- The string at a pointer, if it is not NULL. -/
def readString : Option Addr → Prog Block (Option CStr)
  | none => return none
  | some a => do
    match ← load a with
    | .string s => return some s
    | _ => fault

def readItems (list : PropertyList) : Prog Block (ℕ × List Property) :=
  match list.items with
  | none => fault
  | some a => do
    match ← load a with
    | .items capacity items => return (capacity, items)
    | _ => fault

/-- The item that `list_get` points to. -/
def getItem (list : PropertyList) (i : ℕ) : Prog Block Property := do
  let (_, items) ← readItems list
  match items[i]? with
  | some item => return item
  | none => fault

/-- A write to an item in use or to the next one, which has to be inside of the array. -/
def setItem (list : PropertyList) (i : ℕ) (item : Property) : Prog Block Unit := do
  let (capacity, items) ← readItems list
  match list.items with
  | none => fault
  | some a =>
    if i < items.length then store a (.items capacity (items.set i item))
    else if i = items.length ∧ i < capacity then store a (.items capacity (items ++ [item]))
    else fault

/-! ## Properties -/

/-- `property_copy_func`: the item that it makes of `src`. -/
def propertyCopyFunc (src : Property) : Prog Block Property := do
  let name ← utilsStrdup (← readString src.name)
  match src.value with
  | .string p =>
    if src.hasDefault then do
      let value ← utilsStrdup (← readString p)
      return { src with name, value := .string value }
    else return { src with name }
  | _ => return { src with name }

def freeValue (property : Property) : Prog Block Unit :=
  match property.value with
  | .string p => if property.hasDefault then free p else return
  | _ => return

/-- `property_free_func`: what it leaves of the item. -/
def propertyFreeFunc (property : Property) : Prog Block Property := do
  free property.name
  freeValue property
  return {}

/-! ## Lists -/

def listReserve (list : PropertyList) (required : ℕ) : Prog Block (Bool × PropertyList) :=
  if required ≤ list.capacity then return (true, list)
  else do
    let capacity := doubleUntil required (if list.capacity = 0 then 4 else list.capacity * 2)
    let resized ← realloc list.items fun
      | some (.items _ items) => .items capacity items
      | _ => .items capacity []
    match resized with
    | none => return (false, list)
    | some items => return (true, { list with items := some items, capacity })

def mcpPropertyListAdd (list : PropertyList) (property : Property) :
    Prog Block (Bool × PropertyList) := do
  let (ok, list) ← listReserve list (list.count + 1)
  if ok then do
    let item ← propertyCopyFunc property
    setItem list list.count item
    return (true, { list with count := list.count + 1 })
  else return (false, list)

/-- The loop of `list_free`, from the item `i` on with `n` items left. -/
def freeItems (list : PropertyList) : ℕ → ℕ → Prog Block Unit
  | _, 0 => return
  | i, n + 1 => do
    let item ← propertyFreeFunc (← getItem list i)
    setItem list i item
    freeItems list (i + 1) n

def mcpPropertyListFree (list : PropertyList) : Prog Block PropertyList :=
  match list.items with
  | none => return {}
  | some items => do
    freeItems list 0 list.count
    free (some items)
    return {}

/-- The loop of `mcp_property_list_clone`, which frees the copy when it cannot go on. -/
def cloneItems (source : PropertyList) : PropertyList → ℕ → ℕ → Prog Block PropertyList
  | clone, _, 0 => return clone
  | clone, i, n + 1 => do
    let (ok, clone) ← mcpPropertyListAdd clone (← getItem source i)
    if ok then cloneItems source clone (i + 1) n else mcpPropertyListFree clone

def mcpPropertyListClone (source : PropertyList) : Prog Block PropertyList :=
  cloneItems source {} 0 source.count

/-! ## The adders -/

/-- The end of an adder: the list gets a copy of its property, which is freed. -/
def addAndFree (list : PropertyList) (property : Property) : Prog Block (Bool × PropertyList) := do
  let added ← mcpPropertyListAdd list property
  let _ ← propertyFreeFunc property
  return added

/-- The adders after their check for NULL. `property` is given the duplicated name. -/
def addNamed (list : PropertyList) (name : CStr)
    (add : Addr → Prog Block (Bool × PropertyList)) : Prog Block (Bool × PropertyList) := do
  match ← utilsStrdup (some name) with
  | none => return (false, list)
  | some name => add name

def mcpPropertyListAddBool (list : PropertyList) (name : Option CStr)
    (hasDefault defaultValue : Bool) : Prog Block (Bool × PropertyList) :=
  match name with
  | none => return (false, list)
  | some name => addNamed list name fun name =>
      addAndFree list { name := some name, value := .boolean defaultValue, hasDefault }

def mcpPropertyListAddInt (list : PropertyList) (name : Option CStr) (hasDefault : Bool)
    (defaultValue : Int32) (hasMin : Bool) (minValue : Int32) (hasMax : Bool) (maxValue : Int32) :
    Prog Block (Bool × PropertyList) :=
  match name with
  | none => return (false, list)
  | some name => addNamed list name fun name =>
      addAndFree list { name := some name, value := .integer defaultValue, hasDefault,
                        hasMin, minValue, hasMax, maxValue }

def mcpPropertyListAddString (list : PropertyList) (name defaultValue : Option CStr) :
    Prog Block (Bool × PropertyList) :=
  match name with
  | none => return (false, list)
  | some name => addNamed list name fun name =>
    match defaultValue with
    | none => addAndFree list { name := some name, value := .string none }
    | some value => do
      match ← utilsStrdup (some value) with
      | none => do
        let _ ← propertyFreeFunc { name := some name, value := .string none, hasDefault := true }
        return (false, list)
      | some value =>
        addAndFree list { name := some name, value := .string (some value), hasDefault := true }

def addCall (list : PropertyList) : AddCall → Prog Block (Bool × PropertyList)
  | .bool name hasDefault defaultValue => mcpPropertyListAddBool list name hasDefault defaultValue
  | .int name hasDefault defaultValue hasMin minValue hasMax maxValue =>
    mcpPropertyListAddInt list name hasDefault defaultValue hasMin minValue hasMax maxValue
  | .string name defaultValue => mcpPropertyListAddString list name defaultValue

end MlinkDevice.Pointers
