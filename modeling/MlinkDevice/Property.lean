import MlinkDevice.Json.Lib

/-!
# Tool properties

`mcp_property.c`: the declared properties of a tool, their defaults and bounds, the
typed setters and getters, and the JSON text of one property.
-/

open MlinkDevice.CStr

namespace MlinkDevice

/-! ## Data -/

inductive McpPropertyType where
  | boolean
  | integer
  | string
deriving DecidableEq

/-- The union `value`. Its live member is the one the property's type names. -/
inductive McpPropertyValue where
  | boolean (boolValue : Bool)
  | integer (intValue : Int32)
  | string (stringValue : Option CStr)
deriving DecidableEq

/-- `struct mcp_property`. `hasDefault` also marks a value that a request has set. -/
structure McpProperty where
  name : Option CStr
  value : McpPropertyValue
  hasDefault : Bool
  hasMin : Bool := false
  hasMax : Bool := false
  minValue : Int32 := 0
  maxValue : Int32 := 0
deriving DecidableEq

def McpProperty.type (property : McpProperty) : McpPropertyType :=
  match property.value with
  | .boolean _ => .boolean
  | .integer _ => .integer
  | .string _ => .string

/-! ## Lists -/

/-- `utils_strdup`, with memory to spare. -/
def utilsStrdup (src : Option CStr) : Option CStr := src

def propertyCopyFunc (src : McpProperty) : McpProperty where
  name := utilsStrdup src.name
  value := match src.value with
    | .string s => if src.hasDefault then .string (utilsStrdup s) else .string s
    | v => v
  hasDefault := src.hasDefault
  hasMin := src.hasMin
  hasMax := src.hasMax
  minValue := src.minValue
  maxValue := src.maxValue

def mcpPropertyListAdd (list : List McpProperty) (property : McpProperty) :
    Bool × List McpProperty := (true, list ++ [propertyCopyFunc property])

def mcpPropertyListAddBool (list : List McpProperty) (name : Option CStr)
    (hasDefault defaultValue : Bool) : Bool × List McpProperty :=
  match name with
  | none => (false, list)
  | some name => mcpPropertyListAdd list
      { name := utilsStrdup (some name), value := .boolean defaultValue, hasDefault }

def mcpPropertyListAddInt (list : List McpProperty) (name : Option CStr) (hasDefault : Bool)
    (defaultValue : Int32) (hasMin : Bool) (minValue : Int32) (hasMax : Bool) (maxValue : Int32) :
    Bool × List McpProperty :=
  match name with
  | none => (false, list)
  | some name => mcpPropertyListAdd list
      { name := utilsStrdup (some name), value := .integer defaultValue, hasDefault,
        hasMin, minValue, hasMax, maxValue }

def mcpPropertyListAddString (list : List McpProperty) (name : Option CStr)
    (defaultValue : Option CStr) : Bool × List McpProperty :=
  match name with
  | none => (false, list)
  | some name => mcpPropertyListAdd list
      { name := utilsStrdup (some name), value := .string (utilsStrdup defaultValue),
        hasDefault := defaultValue.isSome }

/-- A call of one of the adders. -/
inductive AddCall where
  | bool (name : Option CStr) (hasDefault defaultValue : Bool)
  | int (name : Option CStr) (hasDefault : Bool) (defaultValue : Int32) (hasMin : Bool)
    (minValue : Int32) (hasMax : Bool) (maxValue : Int32)
  | string (name defaultValue : Option CStr)

def AddCall.run (list : List McpProperty) : AddCall → List McpProperty
  | .bool name hasDefault defaultValue =>
    (mcpPropertyListAddBool list name hasDefault defaultValue).2
  | .int name hasDefault defaultValue hasMin minValue hasMax maxValue =>
    (mcpPropertyListAddInt list name hasDefault defaultValue hasMin minValue hasMax maxValue).2
  | .string name defaultValue => (mcpPropertyListAddString list name defaultValue).2

def mcpPropertyListClone (source : List McpProperty) : List McpProperty :=
  source.foldl (fun clone property => (mcpPropertyListAdd clone property).2) []

def mcpPropertyListGetConst (list : List McpProperty) (name : CStr) : Option McpProperty :=
  list.find? fun property => property.name == some name

def mcpPropertyListGetBool (list : List McpProperty) (name : CStr) : Option Bool :=
  match mcpPropertyListGetConst list name with
  | some { value := .boolean b, hasDefault := true, .. } => some b
  | _ => none

def mcpPropertyListGetInt (list : List McpProperty) (name : CStr) : Option Int32 :=
  match mcpPropertyListGetConst list name with
  | some { value := .integer v, hasDefault := true, .. } => some v
  | _ => none

def mcpPropertyListGetString (list : List McpProperty) (name : CStr) : Option CStr :=
  match mcpPropertyListGetConst list name with
  | some { value := .string s, hasDefault := true, .. } => s
  | _ => none

/-! ## Setters -/

def mcpPropertySetBool (property : McpProperty) (value : Bool) : Bool × McpProperty :=
  if property.type ≠ .boolean then (false, property)
  else (true, { property with value := .boolean value, hasDefault := true })

def mcpPropertySetInt (property : McpProperty) (value : Int32) : Bool × McpProperty :=
  if property.type ≠ .integer then (false, property)
  else if property.hasMin ∧ value < property.minValue then (false, property)
  else if property.hasMax ∧ property.maxValue < value then (false, property)
  else (true, { property with value := .integer value, hasDefault := true })

def mcpPropertySetString (property : McpProperty) (value : CStr) : Bool × McpProperty :=
  if property.type ≠ .string then (false, property)
  else (true, { property with value := .string (utilsStrdup (some value)), hasDefault := true })

/-- `mcp_property_copy_from_json`. The values come from the parser, which leaves 1 in
`valueint` for `true` and 0 for `false`. -/
def mcpPropertyCopyFromJson (property : McpProperty) (json : CJson) : Bool × McpProperty :=
  match property.type, json with
  | .boolean, .bool b => mcpPropertySetBool property b
  | .integer, .number q => mcpPropertySetInt property (CJson.valueint q)
  | .string, .string s => mcpPropertySetString property s
  | _, _ => (false, property)

/-! ## JSON text -/

/-- `cJSON_AddItemToObject`, which refuses a NULL name. -/
def addItemToObject (object : List (CStr × CJson)) (name : Option CStr) (item : CJson) :
    List (CStr × CJson) :=
  match name with
  | none => object
  | some name => object ++ [(name, item)]

def propertyMembers (property : McpProperty) : List (CStr × CJson) :=
  match property.value with
  | .boolean v =>
    [(lit "type", .string (lit "boolean"))] ++
    (if property.hasDefault then [(lit "default", .bool v)] else [])
  | .integer v =>
    [(lit "type", .string (lit "integer"))] ++
    (if property.hasDefault then [(lit "default", .number v.toInt)] else []) ++
    (if property.hasMin then [(lit "minimum", .number property.minValue.toInt)] else []) ++
    (if property.hasMax then [(lit "maximum", .number property.maxValue.toInt)] else [])
  | .string v =>
    [(lit "type", .string (lit "string"))] ++
    (match property.hasDefault, v with
      | true, some s => [(lit "default", .string s)]
      | _, _ => [])

def mcpPropertyToJson (L : CJsonLib) (property : McpProperty) : CStr :=
  L.print (.object (propertyMembers property))

def mcpPropertyAppendJson (L : CJsonLib) (object : List (CStr × CJson)) (property : McpProperty) :
    Option (List (CStr × CJson)) :=
  match L.parse (mcpPropertyToJson L property) with
  | none => none
  | some parsed => some (addItemToObject object property.name parsed)

/-! ## Lemmas -/

@[simp]
theorem propertyCopyFunc_eq (property : McpProperty) : propertyCopyFunc property = property := by
  obtain ⟨name, value, hasDefault, hasMin, hasMax, minValue, maxValue⟩ := property
  cases value <;> simp [propertyCopyFunc, utilsStrdup]

@[simp]
theorem mcpPropertyListClone_eq (source : List McpProperty) : mcpPropertyListClone source = source := by
  have h : ∀ clone : List McpProperty,
      source.foldl (fun clone property => (mcpPropertyListAdd clone property).2) clone =
        clone ++ source := by
    induction source with
    | nil => simp
    | cons p ps ih =>
      intro clone
      rw [List.foldl_cons, ih]
      simp [mcpPropertyListAdd]
  exact h []

theorem propertyMembers_plain (property : McpProperty) :
    (CJson.object (propertyMembers property)).Plain := by
  rw [CJson.plain_object]
  unfold propertyMembers
  split
  · split_ifs <;> simp
  · split_ifs <;> simp
  · split <;> simp

theorem mcpPropertyAppendJson_eq {L : CJsonLib} (hL : L.RoundTrips) (object : List (CStr × CJson))
    (property : McpProperty) : mcpPropertyAppendJson L object property =
      some (addItemToObject object property.name (.object (propertyMembers property))) := by
  unfold mcpPropertyAppendJson
  rw [mcpPropertyToJson, hL.parse_print _ (propertyMembers_plain property)]

end MlinkDevice
